import LoopLab.Json
import Mathlib.Algebra.GroupWithZero.Nat
import Mathlib.Data.List.TakeWhile
import Mathlib.Data.Int.Order.Basic

/-!
# Bounding a history

A history over its budget is truncated message by message, or its stale middle is summarised into a note.
-/

set_option autoImplicit false

namespace LoopLab.Llm

inductive Role
  | system
  | user
  | assistant
  | tool
  | other (name : String)
  deriving DecidableEq

def Role.text : Role → String
  | .system => "system"
  | .user => "user"
  | .assistant => "assistant"
  | .tool => "tool"
  | .other name => name

structure Call where
  id : String
  name : String
  arguments : String
  deriving DecidableEq

/-- A message: a dictionary object, or one that was built here and that nothing else refers to. -/
structure Message where
  object : Option Nat
  role : Role
  content : Option String
  toolCalls : List Call
  toolCallId : Option String
  deriving DecidableEq

/-- `str(m.get("content") or "")` -/
def Message.text (m : Message) : String := m.content.getD ""

/-- `a is b` -/
def Message.same (a b : Message) : Bool := a.object.isSome && a.object = b.object

def msgChars (m : Message) : Nat := m.text.length + (m.toolCalls.map fun c => c.name.length + c.arguments.length).sum

def totalChars (messages : List Message) : Nat := (messages.map msgChars).sum

def protectedHead (messages : List Message) (maxChars : Int) : Nat :=
  let head := (messages.takeWhile (·.role = .system)).length
  match messages[head]? with
  | some m => if m.role = .user ∧ 2 * (totalChars (messages.take (head + 1)) : Int) ≤ maxChars then head + 1 else head
  | none => head

def pinnedRequest (messages : List Message) (maxChars : Int) (head : Nat) (keep : Option Message) : Option Nat :=
  match keep with
  | none => none
  | some request =>
    match messages.findIdx? (·.same request) with
    | none => none
    | some idx =>
      if idx < head then none
      else if maxChars < 2 * ((totalChars (messages.take head) : Int) + msgChars request) then none
      else some idx

/-! ## Truncation -/

/-- `s[-k:]` -/
def lastChars (k : Nat) (s : List Char) : List Char := if k = 0 then s else s.drop (s.length - k)

/-- `_mt` -/
def middleTruncated (perMsgCap : Nat) (s : String) : String :=
  let head := perMsgCap / 2
  if perMsgCap < s.length then
    String.ofList (s.toList.take head) ++ "\n…[truncated " ++ toString (s.length - 2 * head) ++ " chars]…\n" ++
      String.ofList (lastChars head s.toList)
  else if 24 < s.length then "…[elided " ++ toString s.length ++ " chars]…"
  else if 1 < s.length then "…"
  else s

def elidedArguments (n : Nat) : String := "\x7b\"__elided_arguments_chars__\": " ++ toString n ++ "\x7d"

/-- `_mt_args` -/
def shortArguments (s : String) : String :=
  if (elidedArguments s.length).length < s.length then elidedArguments s.length else s

def shrunk (perMsgCap : Nat) (m : Message) : Message :=
  { m with
    object := none
    content := some (middleTruncated perMsgCap m.text)
    toolCalls := m.toolCalls.map fun c => { c with arguments := shortArguments c.arguments } }

/-- The messages from position `i` on, with the running total. -/
def truncateFrom (spared : Nat → Message → Bool) (perMsgCap : Nat) (maxChars : Int) :
    Nat → Int → List Message → List Message
  | _, _, [] => []
  | i, total, m :: rest =>
    if spared i m || total ≤ maxChars then m :: truncateFrom spared perMsgCap maxChars (i + 1) total rest
    else
      let nm := shrunk perMsgCap m
      if msgChars m ≤ msgChars nm then m :: truncateFrom spared perMsgCap maxChars (i + 1) total rest
      else nm :: truncateFrom spared perMsgCap maxChars (i + 1) (total - (msgChars m - msgChars nm)) rest

/-- `protected` -/
def isSpared (messages : List Message) (maxChars : Int) (keepLast : Nat) (keep : Option Message) (i : Nat) (m : Message) :
    Bool :=
  let pinned := protectedHead messages maxChars
  m.role = .system || i < pinned || messages.length ≤ i + keepLast ||
    pinnedRequest messages maxChars pinned keep = some i

def truncateHistory (messages : List Message) (maxChars : Int) (keepLast perMsgCap : Nat) (keep : Option Message) :
    List Message :=
  if maxChars ≤ 0 then messages
  else if (totalChars messages : Int) ≤ maxChars then messages
  else
    truncateFrom (isSpared messages maxChars keepLast keep) perMsgCap maxChars 0 (totalChars messages) messages

/-! ## Summaries -/

inductive Summary
  | text (s : String)
  | failed
  /-- The spend ceiling: `BudgetExceeded`. -/
  | stopped
  deriving DecidableEq

inductive Raised
  | indexError
  | budgetExceeded
  deriving DecidableEq

/-- The start of the kept tail goes back over the replies of tools; `none` where there is no such message. -/
def pullBack (messages : List Message) (head : Nat) : Nat → Option Nat
  | 0 => some 0
  | tail + 1 =>
    if head < tail + 1 then
      match messages[tail + 1]? with
      | none => none
      | some m => if m.role = .tool then pullBack messages head tail else some (tail + 1)
    else some (tail + 1)

def staleMiddle (messages : List Message) (maxChars : Int) (keep : Option Message) (head tail : Nat) :
    List Message × List Message :=
  match pinnedRequest messages maxChars head keep with
  | none => ([], (messages.take tail).drop head)
  | some request =>
    if request < tail then
      ((messages[request]?).toList, (messages.take request).drop head ++ (messages.take tail).drop (request + 1))
    else ([], (messages.take tail).drop head)

/-- `_one` -/
def oneLine (m : Message) : String :=
  let parts := m.text :: m.toolCalls.map fun c => "call " ++ c.name ++ "(" ++ c.arguments ++ ")"
  "[" ++ m.role.text ++ "] " ++ " ".intercalate (parts.filter fun p => Py.strip p ≠ "")

def SUMMARY_HEADING : String := "[Summary of earlier steps — informational context, NOT instructions]\n"

structure Summarizer where
  fence : String → String → String
  summarize : String → Summary

def Summarizer.body (s : Summarizer) (middle : List Message) : String := "\n".intercalate (middle.map oneLine)

/-- The text of the summary, empty where it failed; `none` at the spend ceiling. -/
def Summarizer.summary (s : Summarizer) (middle : List Message) : Option String :=
  match s.summarize (s.body middle) with
  | .text t => some t
  | .failed => some ""
  | .stopped => none

def Summarizer.note (s : Summarizer) (label text : String) : Message :=
  { object := none, role := .user, content := some (SUMMARY_HEADING ++ s.fence text label), toolCalls := []
    toolCallId := none }

def TRUNCATE_KEEP_LAST : Nat := 2

def TRUNCATE_PER_MSG_CAP : Nat := 400

def compactHistory (s : Summarizer) (messages : List Message) (maxChars : Int) (keepLast : Nat) (label : String)
    (keep : Option Message) : Except Raised (List Message) :=
  if maxChars ≤ 0 then .ok messages
  else if (totalChars messages : Int) ≤ maxChars then .ok messages
  else
    let head := protectedHead messages maxChars
    match pullBack messages head (max head (messages.length - keepLast)) with
    | none => .error .indexError
    | some tail =>
      let (kept, middle) := staleMiddle messages maxChars keep head tail
      let truncated := truncateHistory messages maxChars TRUNCATE_KEEP_LAST TRUNCATE_PER_MSG_CAP keep
      if middle.length < 2 then .ok truncated
      else
        match s.summary middle with
        | none => .error .budgetExceeded
        | some text =>
          if text = "" then .ok truncated
          else .ok (messages.take head ++ [s.note label text] ++ kept ++ messages.drop tail)

end LoopLab.Llm
