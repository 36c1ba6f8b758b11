import Mathlib.Data.List.Infix
import Finm327.Phase2.MomentumClient

/-!
# The price server and its clients

The server of `phase2/hft_server.cpp` with a client of `phase2/hft_client.cpp` at the other end of
every connection. Prices are five seconds apart, and each message comes in a `recv` of its own in
either direction. The server's `recv` comes back empty only when the client has ended.
-/

namespace Finm327.Phase2

open Finm327.Hft
open Finm327.Hft2026
open Finm327.Library.Maps
open Finm327.Library.Runs
open Function (update)

universe u

variable {PriceT : Type u} [LinearOrder PriceT]

/-- The text of a number. -/
structure Proper (stof : List UInt8 → Option PriceT) (price : List UInt8) : Prop where
  plain : 0 ∉ price
  short : price.length ≤ 1000
  number : (stof price).isSome

instance (stof : List UInt8 → Option PriceT) (price : List UInt8) : Decidable (Proper stof price) :=
  decidable_of_iff (0 ∉ price ∧ price.length ≤ 1000 ∧ (stof price).isSome)
    ⟨fun ⟨plain, short, number⟩ => ⟨plain, short, number⟩,
      fun proper => ⟨proper.plain, proper.short, proper.number⟩⟩

structure Quote where
  id : Int32
  price : List UInt8
deriving DecidableEq

def Quote.message (quote : Quote) : List UInt8 := priceMessage quote.id quote.price

/-- A connection with the messages under way; `joined` once the client is in the server's list. -/
structure PriceLink (PriceT : Type u) where
  joined : Bool
  /-- All that was sent to the client. -/
  offered : List Quote
  down : List (List UInt8)
  client : MomentumClient PriceT
  ended : Bool
  up : List (List UInt8)

structure PriceLoop (PriceT : Type u) where
  server : HitServer
  links : Nat → PriceLink PriceT

inductive PriceMove
  | draw (price : List UInt8)
  | announce (now : Int)
  | send
  | accept (k : Nat)
  | deliver (k : Nat)
  | register (k : Nat)
  | receive (k : Nat) (now : Int)
  | hit (k : Nat)
  | disconnect (k : Nat)

inductive Sight
  | silent
  | broadcast (quote : Quote)
  | server (entry : Entry)

namespace PriceLink

def idle : PriceLink PriceT := ⟨false, [], [], ⟨[], 0, 0⟩, false, []⟩

def offer (quote : Quote) (link : PriceLink PriceT) : PriceLink PriceT :=
  if link.joined then
    { link with offered := link.offered ++ [quote], down := link.down ++ [quote.message] }
  else link

/-- The client receives a message. -/
def deliver (stof : List UInt8 → Option PriceT) (link : PriceLink PriceT) :
    Option (PriceLink PriceT) :=
  match link.down with
  | [] => none
  | message :: rest =>
      if link.ended = false ∧ message.length < BUFFER_SIZE then
        match link.client.receiveAndRespond stof message with
        | none => some { link with down := rest, ended := true }
        | some (client, order) =>
            some { link with down := rest, client := client, up := link.up ++ order.toList }
      else none

end PriceLink

namespace PriceLoop

def initial : PriceLoop PriceT := ⟨.initial, fun _ => .idle⟩

def onServer (overflow : Int → Int32) (loop : PriceLoop PriceT) (op : Step) :
    Option (PriceLoop PriceT × Sight) :=
  (HitServer.step overflow loop.server op).map fun next =>
    ({ loop with server := next.1 }, .server next.2)

def setLink (loop : PriceLoop PriceT) (k : Nat) (link : PriceLink PriceT) : PriceLoop PriceT :=
  { loop with links := update loop.links k link }

/-- A handler takes the next message of its client. -/
def take (overflow : Int → Int32) (loop : PriceLoop PriceT) (k : Nat)
    (op : List UInt8 → Step) : Option (PriceLoop PriceT × Sight) :=
  match (loop.links k).up with
  | [] => none
  | message :: rest =>
      (loop.onServer overflow (op message)).map fun next =>
        (next.1.setLink k { loop.links k with up := rest }, next.2)

def step (overflow : Int → Int32) (stof : List UInt8 → Option PriceT) (name : Nat → List UInt8)
    (loop : PriceLoop PriceT) : PriceMove → Option (PriceLoop PriceT × Sight)
  | .draw price => loop.onServer overflow (.draw price)
  | .announce now => loop.onServer overflow (.announce now)
  | .send =>
      match loop.server.broadcast with
      | .announced id price =>
          (loop.onServer overflow .send).map fun next =>
            ({ next.1 with links := fun k => (loop.links k).offer ⟨id, price⟩ },
              .broadcast ⟨id, price⟩)
      | _ => none
  | .accept k =>
      if (loop.links k).joined then none
      else some (loop.setLink k { loop.links k with joined := true, up := [name k] }, .silent)
  | .deliver k =>
      ((loop.links k).deliver stof).map fun link => (loop.setLink k link, .silent)
  | .register k => loop.take overflow k (.register k)
  | .receive k now => loop.take overflow k fun message => .receive k message now
  | .hit k => loop.onServer overflow (.hit k)
  | .disconnect k =>
      if (loop.links k).ended ∧ (loop.links k).up = [] then loop.onServer overflow (.disconnect k)
      else none

abbrev Run (PriceT : Type u) := Config (PriceLoop PriceT) PriceMove Sight

/-- Prices are texts of numbers that fit a message. -/
def Quoted (stof : List UInt8 → Option PriceT) (_ : Run PriceT) : PriceMove → Prop
  | .draw price => Proper stof price
  | _ => True

instance (stof : List UInt8 → Option PriceT) (config : Run PriceT) :
    ∀ move, Decidable (Quoted stof config move)
  | .draw price => inferInstanceAs (Decidable (Proper stof price))
  | .announce _ | .send | .accept _ | .deliver _ | .register _ | .receive _ _ | .hit _
  | .disconnect _ => inferInstanceAs (Decidable True)

end PriceLoop

/-! ## What a run shows -/

namespace Sight

def entry : Sight → Option Entry
  | .silent => none
  | .broadcast quote => some (.sent quote.message)
  | .server entry => some entry

def quote : Sight → Option Quote
  | .broadcast quote => some quote
  | _ => none

/-- What the server shows. -/
def entries (sights : List Sight) : List Entry := sights.filterMap entry

/-- The prices broadcast. -/
def quotes (sights : List Sight) : List Quote := sights.filterMap quote

theorem entries_append (sights : List Sight) (sight : Sight) :
    entries (sights ++ [sight]) = entries sights ++ sight.entry.toList := by
  cases sight <;> simp [entries, entry]

theorem quotes_append (sights : List Sight) (sight : Sight) :
    quotes (sights ++ [sight]) = quotes sights ++ sight.quote.toList := by
  cases sight <;> simp [quotes, quote]

end Sight

/-! ## What a client answers -/

section Client

variable {stof : List UInt8 → Option PriceT}

/-- A rise or a fall over three prices. -/
def Momentum (stof : List UInt8 → Option PriceT) (a b c : Quote) : Prop :=
  ∃ x y z, stof a.price = some x ∧ stof b.price = some y ∧ stof c.price = some z ∧
    (x < y ∧ y < z ∨ y < x ∧ z < y)

/-- The price continues a rise or a fall of the two before it. -/
def Continues (stof : List UInt8 → Option PriceT) (quotes : List Quote) (id : Int32) : Prop :=
  ∃ before a b c after, quotes = before ++ [a, b, c] ++ after ∧ c.id = id ∧ Momentum stof a b c

theorem Continues.of_suffix {quotes more : List Quote} {id : Int32}
    (continues : Continues stof quotes id) (part : quotes <:+ more) : Continues stof more id := by
  obtain ⟨front, rfl⟩ := part
  obtain ⟨before, a, b, c, after, rfl, own, momentum⟩ := continues
  exact ⟨front ++ before, a, b, c, after, by simp, own, momentum⟩

theorem Continues.append {quotes : List Quote} {id : Int32}
    (continues : Continues stof quotes id) (more : List Quote) :
    Continues stof (quotes ++ more) id := by
  obtain ⟨before, a, b, c, after, rfl, own, momentum⟩ := continues
  exact ⟨before, a, b, c, after ++ more, by simp, own, momentum⟩

theorem continues_concat {quotes : List Quote} {quote : Quote} {id : Int32} :
    Continues stof (quotes ++ [quote]) id ↔ Continues stof quotes id ∨
      quote.id = id ∧ ∃ before a b, quotes = before ++ [a, b] ∧ Momentum stof a b quote := by
  constructor
  · intro ⟨before, a, b, c, after, split, own, momentum⟩
    cases List.eq_nil_or_concat after with
    | inl last =>
        rw [last, List.append_nil, show before ++ [a, b, c] = before ++ [a, b] ++ [c] by simp]
          at split
        obtain ⟨same, rfl⟩ := List.append_inj' split rfl |>.imp_right List.singleton_inj.mp
        exact .inr ⟨own, before, a, b, same, momentum⟩
    | inr earlier =>
        obtain ⟨front, last, rfl⟩ := earlier
        rw [List.concat_eq_append, ← List.append_assoc] at split
        exact .inl ⟨before, a, b, c, front, (List.append_inj' split rfl).1, own, momentum⟩
  · intro either
    rcases either with old | ⟨own, before, a, b, rfl, momentum⟩
    · exact old.append [quote]
    · exact ⟨before, a, b, quote, [], by simp, own, momentum⟩

/-- The last three of the prices. -/
def lastThree (values : List PriceT) : List PriceT := values.drop (values.length - 3)

omit [LinearOrder PriceT] in
theorem remember_last {client : MomentumClient PriceT} {values : List PriceT}
    (history : client.priceHistory = lastThree values) (value : PriceT) :
    (client.remember value).priceHistory = lastThree (values ++ [value]) := by
  have length : (lastThree values).length = values.length - (values.length - 3) :=
    List.length_drop
  rw [MomentumClient.remember]
  dsimp only
  rw [history, length, lastThree, lastThree, List.length_append, List.length_singleton]
  by_cases three : 3 ≤ values.length
  · have kept : 3 ≤ values.length - (values.length - 3) := by omega
    have place : values.length - 3 + 1 = values.length + 1 - 3 := by omega
    rw [if_pos kept, List.drop_drop, place, List.drop_append_of_le_length (by omega)]
  · have kept : ¬ 3 ≤ values.length - (values.length - 3) := by omega
    have whole : values.length - 3 = 0 := by omega
    have wholeToo : values.length + 1 - 3 = 0 := by omega
    rw [if_neg kept, whole, wholeToo, List.drop_zero, List.drop_zero]

theorem momentum_last {values : List PriceT} {z : PriceT} :
    MomentumClient.momentum (lastThree (values ++ [z])) = true ↔
      ∃ front x y, values = front ++ [x, y] ∧ (x < y ∧ y < z ∨ y < x ∧ z < y) := by
  have short : values.length < 2 → MomentumClient.momentum (lastThree (values ++ [z])) = false ∧
      ∀ front x y, values ≠ front ++ [x, y] := by
    intro few
    constructor
    · match values, few with
      | [], _ => rfl
      | [_], _ => rfl
    · intro front x y split
      rw [split, List.length_append] at few
      simp at few
  by_cases few : values.length < 2
  · rw [(short few).1]
    constructor
    · intro contrary
      cases contrary
    · intro ⟨front, x, y, split, _⟩
      exact absurd split ((short few).2 front x y)
  · have split := List.take_append_drop (values.length - 2) values
    have pair : (values.drop (values.length - 2)).length = 2 := by
      rw [List.length_drop]
      omega
    obtain ⟨x, y, last⟩ := List.length_eq_two.mp pair
    rw [last] at split
    have three : lastThree (values ++ [z]) = [x, y, z] := by
      rw [← split]
      simp [lastThree]
    rw [three]
    constructor
    · intro momentum
      exact ⟨_, x, y, split.symm, by simpa [MomentumClient.momentum] using momentum⟩
    · intro ⟨front, v, w, same, momentum⟩
      obtain ⟨_, own⟩ := List.append_inj' (split.trans same) rfl
      cases own
      simpa [MomentumClient.momentum] using momentum

/-- The prices of a list of quotes are numbers. -/
def Reads (stof : List UInt8 → Option PriceT) (quotes : List Quote) (values : List PriceT) : Prop :=
  quotes.map (fun quote => stof quote.price) = values.map some

theorem map_eq_pair {α β : Type*} {f : α → β} {list : List α} {x y : β}
    (pair : list.map f = [x, y]) : ∃ a b, list = [a, b] ∧ f a = x ∧ f b = y := by
  obtain ⟨a, rest, rfl, first, others⟩ := List.map_eq_cons_iff.mp pair
  obtain ⟨b, none, rfl, second, last⟩ := List.map_eq_cons_iff.mp others
  rw [List.map_eq_nil_iff] at last
  exact ⟨a, b, by rw [last], first, second⟩

theorem momentum_iff {seen : List Quote} {values : List PriceT} (reads : Reads stof seen values)
    {quote : Quote} {z : PriceT} (value : stof quote.price = some z) :
    MomentumClient.momentum (lastThree (values ++ [z])) = true ↔
      ∃ before a b, seen = before ++ [a, b] ∧ Momentum stof a b quote := by
  rw [momentum_last]
  constructor
  · intro ⟨front, x, y, split, momentum⟩
    rw [Reads, split, List.map_append] at reads
    obtain ⟨before, pair, rfl, _, last⟩ := List.map_eq_append_iff.mp reads
    obtain ⟨a, b, rfl, first, second⟩ := map_eq_pair last
    exact ⟨before, a, b, rfl, x, y, z, first, second, value, momentum⟩
  · intro ⟨before, a, b, split, x, y, w, first, second, third, momentum⟩
    rw [Reads, split, List.map_append] at reads
    obtain ⟨front, pair, rfl, _, last⟩ := List.map_eq_append_iff.mp reads.symm
    rw [List.map_cons, List.map_cons, List.map_nil, first, second] at last
    obtain ⟨v, t, rfl, own, ownToo⟩ := map_eq_pair last
    rw [value] at third
    cases third
    cases own
    cases ownToo
    exact ⟨front, x, y, rfl, momentum⟩

/-- The answer to a price, given the three last ones with it. -/
theorem respond_quote {quote : Quote} {z : PriceT} (plain : 0 ∉ quote.price)
    (value : stof quote.price = some z) (client : MomentumClient PriceT) :
    ∃ after, client.receiveAndRespond stof quote.message = some (after,
        if MomentumClient.momentum (client.remember z).priceHistory then
          some (formatInt quote.id.toInt) else none) ∧
      after.priceHistory = (client.remember z).priceHistory := by
  have apart := @format_int_apart 44 (by decide) (by decide) quote.id.toInt
  have whole : cStr quote.message = quote.message := by
    rw [cStr, List.takeWhile_eq_self_iff]
    intro c member
    rcases List.mem_append.mp member with inId | rest
    · exact @format_int_apart 0 (by decide) (by decide) quote.id.toInt c inId
    · rcases List.mem_cons.mp rest with comma | inPrice
      · rw [comma]
        rfl
      · exact decide_eq_true fun zero => plain (zero ▸ inPrice)
  have comma : 44 ∈ quote.message := List.mem_append_right _ List.mem_cons_self
  have before := MomentumClient.text_before_comma quote.id quote.price
  have after : quote.message.dropWhile (fun c => c ≠ 44) = 44 :: quote.price := by
    rw [Quote.message, priceMessage, List.dropWhile_append_of_pos apart,
      List.dropWhile_cons_of_neg (by decide)]
  have stop : ∀ c, ([] : List UInt8).head? = some c → isDigit c = false := by
    intro c absent
    cases absent
  have read := @read_int_format [] [] (fun _ absent => absurd absent List.not_mem_nil) quote.id stop
  rw [List.nil_append, List.append_nil] at read
  rw [show priceMessage quote.id quote.price = quote.message from rfl, whole] at before
  rw [MomentumClient.receiveAndRespond]
  dsimp only
  rw [whole, if_pos comma, before, read, after]
  simp only [List.drop_one, List.tail_cons, value]
  split_ifs with momentum
  · exact ⟨_, rfl, rfl⟩
  · exact ⟨_, rfl, rfl⟩

end Client

end Finm327.Phase2
