import Mathlib.Order.Lattice
import Finm327.Phase4.LawfulBook

/-!
# The reference engine

What price-time priority means, without levels, queues or shared objects: the
live unfilled orders are one flat list in order of submission, a cancel removes
an order at once, and an incoming order is matched by searching the list. Only
the operations and their pointers are those of the engine under `phase4`.
-/

namespace Finm327.Phase4

universe u

variable {PriceT : Type u}

/-- An order as far as matching is concerned. -/
structure Entry (PriceT : Type u) where
  id : Int
  side : Side
  price : PriceT
  remaining : Int
deriving DecidableEq, Repr

/-- What a trade says about the two orders. -/
structure Fill (PriceT : Type u) where
  buyId : Int
  sellId : Int
  price : PriceT
  quantity : Int
deriving DecidableEq, Repr

namespace Entry

def fillBy (qty : Int) (entry : Entry PriceT) : Entry PriceT :=
  { entry with remaining := entry.remaining - qty }

/-- The resting order's price is the price of the trade. -/
def fill (incoming resting : Entry PriceT) (qty : Int) : Fill PriceT :=
  if incoming.side = .buy then ⟨incoming.id, resting.id, resting.price, qty⟩
  else ⟨resting.id, incoming.id, resting.price, qty⟩

variable [LinearOrder PriceT]

def crosses (incoming resting : Entry PriceT) : Bool :=
  if incoming.side = .buy then decide (resting.price ≤ incoming.price)
  else decide (incoming.price ≤ resting.price)

/-- Orders of the opposite side whose price crosses. -/
def candidates (incoming : Entry PriceT) (resting : List (Entry PriceT)) : List (Entry PriceT) :=
  resting.filter fun entry => entry.side = incoming.side.opp && incoming.crosses entry

/-- The first order, hence the one submitted earliest, to which none is
preferred for its price. -/
def select (entries : List (Entry PriceT)) : Option (Entry PriceT) :=
  entries.find? fun entry =>
    entries.all fun other => !betterPrice entry.side other.price entry.price

end Entry

/-- Takes `qty` units out of the order with this id, which leaves the list when
nothing is left of it. -/
def strike (id qty : Int) (resting : List (Entry PriceT)) : List (Entry PriceT) :=
  resting.filterMap fun entry =>
    if entry.id = id then
      if entry.remaining = qty then none else some (entry.fillBy qty)
    else some entry

structure Reference (PriceT : Type u) where
  /-- The orders placed so far, by pointer. -/
  placed : List (Entry PriceT)
  resting : List (Entry PriceT)
deriving DecidableEq, Repr

namespace Reference

variable [LinearOrder PriceT]

/-- Matches at most `rounds` times. Every match uses up the incoming order or
one resting order, so as many rounds as there are resting orders are enough. -/
def sweep : Nat → Entry PriceT → List (Entry PriceT) →
    List (Fill PriceT) × Entry PriceT × List (Entry PriceT)
  | 0, incoming, resting => ([], incoming, resting)
  | rounds + 1, incoming, resting =>
      if incoming.remaining > 0 then
        match Entry.select (incoming.candidates resting) with
        | none => ([], incoming, resting)
        | some maker =>
            let qty := min incoming.remaining maker.remaining
            let (fills, left, rest) :=
              sweep rounds (incoming.fillBy qty) (strike maker.id qty resting)
            (incoming.fill maker qty :: fills, left, rest)
      else ([], incoming, resting)

def submit (incoming : Entry PriceT) (resting : List (Entry PriceT)) :
    List (Fill PriceT) × List (Entry PriceT) :=
  let (fills, left, rest) := sweep resting.length incoming resting
  (fills, if left.remaining > 0 then rest ++ [left] else rest)

def step (reference : Reference PriceT) :
    Op PriceT → Option (Reference PriceT × List (Fill PriceT))
  | .place _ price qty s =>
      some ({ reference with
        placed := reference.placed ++ [⟨reference.placed.length + 1, s, price, qty⟩] }, [])
  | .submit incoming _ _ =>
      match reference.placed[incoming]? with
      | none => none
      | some order =>
          let (fills, resting) := submit order reference.resting
          some ({ reference with resting := resting }, fills)
  | .cancel id =>
      some ({ reference with
        resting := reference.resting.filter fun entry => entry.id != id }, [])
  | .reap => some (reference, [])

omit [LinearOrder PriceT] in
def initial : Reference PriceT := ⟨[], []⟩

end Reference

theorem strike_length_lt {entry : Entry PriceT} {resting : List (Entry PriceT)}
    (member : entry ∈ resting) :
    (strike entry.id entry.remaining resting).length < resting.length := by
  unfold strike
  apply List.length_filterMap_lt_length_iff_exists.mpr
  refine ⟨entry, member, ?_⟩
  rw [if_pos rfl, if_pos rfl]

/-- The earliest of the orders with the best price is selected. -/
theorem Entry.select_eq_some [LinearOrder PriceT] {entries before after : List (Entry PriceT)}
    {best : Entry PriceT} (split : entries = before ++ best :: after)
    (unbeaten : ∀ other ∈ entries, betterPrice best.side other.price best.price = false)
    (beaten : ∀ entry ∈ before, ∃ other ∈ entries,
      betterPrice entry.side other.price entry.price = true) :
    Entry.select entries = some best := by
  apply List.find?_eq_some_iff_append.mpr
  refine ⟨?_, before, after, split, ?_⟩
  · rw [List.all_eq_true]
    intro other member
    rw [unbeaten other member]
    rfl
  · intro entry member
    obtain ⟨other, inEntries, better⟩ := beaten entry member
    rw [Bool.not_eq_true', List.all_eq_false]
    exact ⟨other, inEntries, by simp [better]⟩

end Finm327.Phase4
