import Mathlib.Data.Int.Order.Basic

/-!
# Bounded pages

One page of a text under a cap, with the receipt that names the range it shows.
-/

set_option autoImplicit false

namespace LoopLab.Llm

def PAGE_RECEIPT (what : String) (start stop total : Nat) (more : String) : String :=
  "\n…[" ++ what ++ "chars " ++ toString start ++ "-" ++ toString stop ++ " of " ++ toString total ++ more ++ "]"

structure PageCall where
  text : String
  /-- `more_call`: what the template gives for an offset; `none` where the template is empty. -/
  moreCall : Option (Nat → String)
  what : String

namespace PageCall

def total (p : PageCall) : Nat := p.text.length

def start (p : PageCall) (offset : Int) : Nat := (max 0 (min offset p.total)).toNat

def label (p : PageCall) : String := if p.what = "" then "" else p.what ++ " "

def more (p : PageCall) (stop : Nat) : String :=
  if p.total ≤ stop then "; end of text"
  else
    match p.moreCall with
    | some call => "; call " ++ call stop ++ " for the rest"
    | none => "; the rest is not addressable from this call"

def receipt (p : PageCall) (start stop : Nat) : String := PAGE_RECEIPT p.label start stop p.total (p.more stop)

def newKeep (p : PageCall) (cap : Int) (start keep : Nat) : Nat :=
  let stop := min p.total (start + keep)
  (max (if stop < p.total then 1 else 0) (cap - (p.receipt start stop).length)).toNat

def settle (p : PageCall) (cap : Int) (start : Nat) : Nat → Nat → Nat
  | 0, keep => keep
  | steps + 1, keep =>
    if p.newKeep cap start keep = keep then keep else settle p cap start steps (p.newKeep cap start keep)

/-- `text[start:end]` -/
def shown (p : PageCall) (start stop : Nat) : String := String.ofList ((p.text.toList.take stop).drop start)

def stop (p : PageCall) (cap : Int) (offset : Int) : Nat :=
  if p.start offset = 0 ∧ (p.total : Int) ≤ cap then p.total
  else min p.total (p.start offset + p.settle cap (p.start offset) 4 (max 0 cap).toNat)

end PageCall

def boundedPage (p : PageCall) (cap : Int) (offset : Int) : String :=
  if p.start offset = 0 ∧ (p.total : Int) ≤ cap then p.text
  else p.shown (p.start offset) (p.stop cap offset) ++ p.receipt (p.start offset) (p.stop cap offset)

end LoopLab.Llm
