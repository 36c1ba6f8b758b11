import Mathlib.Order.Basic
import Finm327.Phase2.Credits

/-!
# The orders of the momentum client

Transcribes the loop of `phase2/hft_client.cpp`. The client keeps the last three prices and
sends the id of a price that continues a rise or a fall. Its orders are plain texts, so with
such clients every hit is credited soundly.
-/

namespace Finm327.Phase2

open Finm327.Hft
open Finm327.Hft2026
open Finm327.Library.Runs

universe u

structure MomentumClient (PriceT : Type u) where
  priceHistory : List PriceT
  ordersHit : Nat
  pricesReceived : Nat

namespace MomentumClient

variable {PriceT : Type u} [LinearOrder PriceT]

def remember (price : PriceT) (client : MomentumClient PriceT) : MomentumClient PriceT :=
  let kept :=
    if 3 ≤ client.priceHistory.length then client.priceHistory.drop 1 else client.priceHistory
  { client with priceHistory := kept ++ [price], pricesReceived := client.pricesReceived + 1 }

/-- `up || down`, once there are three prices. -/
def momentum : List PriceT → Bool
  | [a, b, c] =>
      let up := a < b ∧ b < c
      let down := b < a ∧ c < b
      up ∨ down
  | _ => false

/-- The body of the loop for one message. `stoi` and `stof` throw where there is no number to
read, which ends the client. -/
def receiveAndRespond (stof : List UInt8 → Option PriceT) (client : MomentumClient PriceT)
    (buffer : List UInt8) : Option (MomentumClient PriceT × Option (List UInt8)) :=
  let data := cStr buffer
  if 44 ∈ data then
    match readInt (data.takeWhile fun c => c ≠ 44) with
    | none => none
    | some (priceId, _) =>
        match stof ((data.dropWhile fun c => c ≠ 44).drop 1) with
        | none => none
        | some price =>
            let client := client.remember price
            if momentum client.priceHistory then
              some ({ client with ordersHit := client.ordersHit + 1 }, some (formatInt priceId))
            else some (client, none)
  else some (client, none)

theorem read_int_fits {text rest : List UInt8} {value : Int}
    (read : readInt text = some (value, rest)) : Fits value := by
  unfold readInt at read
  cases signed : readSigned (text.dropWhile isSpace) with
  | none =>
      rw [signed] at read
      cases read
  | some found =>
      rw [signed] at read
      dsimp only at read
      split_ifs at read with fits
      cases read
      exact ⟨fits.1, by omega⟩

theorem text_before_comma (id : Int32) (price : List UInt8) :
    (cStr (priceMessage id price)).takeWhile (fun c => c ≠ 44) = formatInt id.toInt := by
  have whole := @format_int_apart 0 (by decide) (by decide) id.toInt
  have before := @format_int_apart 44 (by decide) (by decide) id.toInt
  rw [cStr, priceMessage, List.takeWhile_append_of_pos whole,
    List.takeWhile_cons_of_pos (by decide), List.takeWhile_append_of_pos before,
    List.takeWhile_cons_of_neg (by decide), List.append_nil]

section Orders

variable {stof : List UInt8 → Option PriceT} {client after : MomentumClient PriceT}
  {buffer order : List UInt8}

/-- An order is the number in front of the comma. -/
theorem order_eq (ran : client.receiveAndRespond stof buffer = some (after, some order)) :
    ∃ priceId rest, readInt ((cStr buffer).takeWhile fun c => c ≠ 44) = some (priceId, rest) ∧
      order = formatInt priceId := by
  unfold receiveAndRespond at ran
  dsimp only at ran
  split_ifs at ran
  · cases read : readInt ((cStr buffer).takeWhile fun c => c ≠ 44) with
    | none =>
        rw [read] at ran
        cases ran
    | some found =>
        rw [read] at ran
        dsimp only at ran
        cases value : stof (((cStr buffer).dropWhile fun c => c ≠ 44).drop 1) with
        | none =>
            rw [value] at ran
            cases ran
        | some price =>
            rw [value] at ran
            dsimp only at ran
            split_ifs at ran
            · cases ran
              exact ⟨found.1, found.2, rfl, rfl⟩
            · cases ran
  · cases ran

theorem order_plain (ran : client.receiveAndRespond stof buffer = some (after, some order)) :
    Plain order := by
  obtain ⟨priceId, rest, read, rfl⟩ := order_eq ran
  have fits := read_int_fits read
  exact ⟨Int32.ofInt priceId, by rw [Int32.toInt_ofInt_of_le fits.1 fits.2]⟩

theorem order_for_price {id : Int32} {price : List UInt8}
    (ran : client.receiveAndRespond stof (priceMessage id price) = some (after, some order)) :
    order = formatInt id.toInt := by
  obtain ⟨priceId, rest, read, rfl⟩ := order_eq ran
  rw [text_before_comma] at read
  have own := @read_int_format [] [] (fun _ absent => absurd absent List.not_mem_nil) id nofun
  rw [List.nil_append, List.append_nil, read] at own
  rw [(Prod.mk.inj (Option.some.inj own)).1]

end Orders

end MomentumClient

namespace HitServer

variable {PriceT : Type u} [LinearOrder PriceT] {overflow : Int → Int32}

/-- Every message after the name is an order of some momentum client. -/
def ordersOnly (stof : List UInt8 → Option PriceT) (_ : Run) : Step → Prop
  | .receive _ bytes _ => ∃ (client after : MomentumClient PriceT) (buffer : List UInt8),
      client.receiveAndRespond stof buffer = some (after, some bytes)
  | _ => True

theorem plain_hit_of_in_hand {server : HitServer}
    (inHand : ∀ k name bytes id now, server.handlers k = .parsed name bytes id now → Plain bytes)
    (op : Step) : server.PlainHit op := by
  cases op with
  | hit k =>
      cases pending : server.handlers k with
      | parsed name bytes id now =>
          exact (plain_hit_iff pending).mpr fun _ => inHand k name bytes id now pending
      | naming | receiving | closed =>
          rw [PlainHit, pending]
          trivial
  | draw | announce | send | register | receive | disconnect => trivial

/-- Among momentum clients every hit is credited soundly. -/
theorem momentum_clients_sound (stof : List UInt8 → Option PriceT) {config : Run}
    (reached : Reachable (step overflow) (ordersOnly stof) initial config) :
    HitsSound config.observations := by
  have both : Reachable (step overflow) plainHits initial config ∧
      ∀ k name bytes id now, config.state.handlers k = .parsed name bytes id now → Plain bytes := by
    refine reachable_invariant (fun config : Run =>
      Reachable (step overflow) plainHits initial config ∧ ∀ k name bytes id now,
        config.state.handlers k = .parsed name bytes id now → Plain bytes) ?_ ?_ reached
    · refine ⟨reachable_start, ?_⟩
      intro k name bytes id now contrary
      cases contrary
    · rintro config op next entry ⟨before, inHand⟩ order ran
      refine ⟨before.tail (.run (plain_hit_of_in_hand inHand op) ran), ?_⟩
      intro k name bytes id now found
      cases parsed_of_effect (step_effect ran) found with
      | inl old => exact inHand k name bytes id now old
      | inr new =>
          rw [new.1] at order
          obtain ⟨client, after, buffer, sent⟩ := order
          exact client.order_plain sent
  have sound := reachable_sound both.1
  exact ⟨sound.once, sound.registered, reachable_worded both.1⟩

end HitServer

end Finm327.Phase2
