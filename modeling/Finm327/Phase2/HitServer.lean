import Mathlib.Data.Finset.Insert
import Finm327.Library.Maps
import Finm327.Library.Runs
import Finm327.Hft2026.Messages

/-!
# The hits of the price server

Transcribes `phase2/hft_server.cpp`. A move of a thread is one `recv` with the reading of its
bytes, one critical section, or one round of sends. A price is credited to the first message
whose number is its id. `atoi` makes a number of any text, so the message need not be the id.
-/

namespace Finm327.Phase2

open Finm327.Hft
open Finm327.Hft2026
open Finm327.Library.Maps
open Finm327.Library.Runs
open Function (update)

def BUFFER_SIZE : Nat := 1024

/-- `atoi`: 0 where no number is found. -/
def atoi (overflow : Int → Int32) (cstr : List UInt8) : Int32 :=
  match scanInt cstr with
  | none => 0
  | some (value, _) => stored overflow value

/-- `to_string(id) + "," + to_string(price)`. -/
def priceMessage (id : Int32) (price : List UInt8) : List UInt8 :=
  formatInt id.toInt ++ 44 :: price

/-- Where the handler of a client is. -/
inductive Handler where
  | naming
  | receiving (name : List UInt8)
  | parsed (name bytes : List UInt8) (receivedPriceId : Int32) (now : Int)
  | closed

/-- Where `broadcastPrices` is. -/
inductive Broadcast where
  | sleeping
  | drawn (id : Int32) (price : List UInt8)
  | announced (id : Int32) (price : List UInt8)

structure HitServer where
  priceId : Int32
  broadcast : Broadcast
  priceTimestamps : KeyMap Int32 Int
  priceAlreadyHit : Finset Int32
  handlers : Nat → Handler

inductive Step where
  | draw (price : List UInt8)
  | announce (now : Int)
  | send
  | register (k : Nat) (bytes : List UInt8)
  | receive (k : Nat) (bytes : List UInt8) (now : Int)
  | hit (k : Nat)
  | disconnect (k : Nat)

/-- What a step shows; a hit with the message that it is credited for. -/
inductive Entry where
  | silent
  | registered (id : Int32)
  | sent (message : List UInt8)
  | unknown (id : Int32)
  | hit (k : Nat) (name bytes : List UInt8) (id : Int32) (latency : Int)
deriving DecidableEq

namespace HitServer

def initial : HitServer := ⟨0, .sleeping, ∅, ∅, fun _ => .naming⟩

/-- The critical section of `handleClient`. -/
def recordHit (k : Nat) (name bytes : List UInt8) (receivedPriceId : Int32) (now : Int)
    (server : HitServer) : HitServer × Entry :=
  if receivedPriceId ∈ server.priceAlreadyHit then (server, .silent)
  else
    match server.priceTimestamps.lookup receivedPriceId with
    | none => (server, .unknown receivedPriceId)
    | some sentAt =>
        ({ server with priceAlreadyHit := insert receivedPriceId server.priceAlreadyHit },
          .hit k name bytes receivedPriceId ((now - sentAt).tdiv 1000000))

def step (overflow : Int → Int32) (server : HitServer) : Step → Option (HitServer × Entry)
  | .draw price =>
      match server.broadcast with
      | .sleeping =>
          some ({ server with
            priceId := server.priceId + 1
            broadcast := .drawn server.priceId price }, .silent)
      | _ => none
  | .announce now =>
      match server.broadcast with
      | .drawn id price =>
          some ({ server with
            priceTimestamps := server.priceTimestamps.insert id now
            broadcast := .announced id price }, .registered id)
      | _ => none
  | .send =>
      match server.broadcast with
      | .announced id price =>
          some ({ server with broadcast := .sleeping }, .sent (priceMessage id price))
      | _ => none
  | .register k bytes =>
      match server.handlers k with
      | .naming =>
          if bytes ≠ [] ∧ bytes.length < BUFFER_SIZE then
            some ({ server with
              handlers := update server.handlers k (.receiving (cStr bytes)) }, .silent)
          else none
      | _ => none
  | .receive k bytes now =>
      match server.handlers k with
      | .receiving name =>
          if bytes ≠ [] ∧ bytes.length < BUFFER_SIZE then
            let receivedPriceId := atoi overflow (cStr bytes)
            some ({ server with
              handlers := update server.handlers k (.parsed name bytes receivedPriceId now) },
              .silent)
          else none
      | _ => none
  | .hit k =>
      match server.handlers k with
      | .parsed name bytes receivedPriceId now =>
          let (server, entry) := server.recordHit k name bytes receivedPriceId now
          some ({ server with handlers := update server.handlers k (.receiving name) }, entry)
      | _ => none
  | .disconnect k =>
      match server.handlers k with
      | .naming =>
          some ({ server with handlers := update server.handlers k .closed }, .silent)
      | .receiving _ =>
          some ({ server with handlers := update server.handlers k .closed }, .silent)
      | _ => none

/-- What a step can do to what has been registered and hit, and when. -/
inductive Effect (overflow : Int → Int32) (server : HitServer) :
    Step → HitServer → Entry → Prop where
  | turns {op : Step} (next : HitServer) {entry : Entry}
      (timestamps : next.priceTimestamps = server.priceTimestamps)
      (hits : next.priceAlreadyHit = server.priceAlreadyHit)
      (quiet : entry = .silent ∨ ∃ message, entry = .sent message)
      (other : ∀ k, op ≠ .hit k)
      (handlers : ∀ k name bytes id now, next.handlers k = .parsed name bytes id now →
        server.handlers k = .parsed name bytes id now ∨
          op = .receive k bytes now ∧ id = atoi overflow (cStr bytes)) :
      Effect overflow server op next entry
  | announces {id : Int32} {price : List UInt8} (now : Int)
      (drawn : server.broadcast = .drawn id price) :
      Effect overflow server (.announce now) { server with
        priceTimestamps := server.priceTimestamps.insert id now
        broadcast := .announced id price } (.registered id)
  | known {k : Nat} {name bytes : List UInt8} {id : Int32} {now : Int}
      (pending : server.handlers k = .parsed name bytes id now)
      (done : id ∈ server.priceAlreadyHit) :
      Effect overflow server (.hit k) { server with
        handlers := update server.handlers k (.receiving name) } .silent
  | unknown {k : Nat} {name bytes : List UInt8} {id : Int32} {now : Int}
      (pending : server.handlers k = .parsed name bytes id now)
      (missing : id ∉ server.priceTimestamps) :
      Effect overflow server (.hit k) { server with
        handlers := update server.handlers k (.receiving name) } (.unknown id)
  | credits {k : Nat} {name bytes : List UInt8} {id : Int32} {now : Int} (latency : Int)
      (pending : server.handlers k = .parsed name bytes id now)
      (fresh : id ∉ server.priceAlreadyHit) (registered : id ∈ server.priceTimestamps) :
      Effect overflow server (.hit k) { server with
        priceAlreadyHit := insert id server.priceAlreadyHit
        handlers := update server.handlers k (.receiving name) } (.hit k name bytes id latency)

theorem handlers_of_update {server : HitServer} (k : Nat) {handler : Handler}
    (other : handler = .closed ∨ ∃ name, handler = .receiving name) :
    ∀ j name bytes id now, update server.handlers k handler j = .parsed name bytes id now →
      server.handlers j = .parsed name bytes id now := by
  intro j name bytes id now found
  rw [Function.update_apply] at found
  split_ifs at found
  · rcases other with rfl | ⟨own, rfl⟩
    · cases found
    · cases found
  · exact found

theorem record_hit_effect {overflow : Int → Int32} {server : HitServer} {k : Nat}
    {name bytes : List UInt8} {id : Int32} {now : Int}
    (pending : server.handlers k = .parsed name bytes id now) :
    Effect overflow server (.hit k)
      { (server.recordHit k name bytes id now).1 with
        handlers := update (server.recordHit k name bytes id now).1.handlers k (.receiving name) }
      (server.recordHit k name bytes id now).2 := by
  unfold recordHit
  split_ifs with done
  · exact .known pending done
  · cases found : server.priceTimestamps.lookup id with
    | none => exact .unknown pending (AList.lookup_eq_none.mp found)
    | some sentAt => exact .credits _ pending done (mem_iff_lookup.mpr ⟨sentAt, found⟩)

theorem step_effect {overflow : Int → Int32} {server next : HitServer} {op : Step} {entry : Entry}
    (ran : step overflow server op = some (next, entry)) :
    Effect overflow server op next entry := by
  cases op with
  | draw price =>
      simp only [step] at ran
      split at ran
      · cases ran
        exact .turns _ rfl rfl (.inl rfl) nofun (fun _ _ _ _ _ found => .inl found)
      · cases ran
  | announce now =>
      simp only [step] at ran
      split at ran
      · rename_i drawn
        cases ran
        exact .announces now drawn
      · cases ran
  | send =>
      simp only [step] at ran
      split at ran
      · cases ran
        exact .turns _ rfl rfl (.inr ⟨_, rfl⟩) nofun (fun _ _ _ _ _ found => .inl found)
      · cases ran
  | register k bytes =>
      simp only [step] at ran
      split at ran
      · split_ifs at ran
        cases ran
        exact .turns _ rfl rfl (.inl rfl) nofun (fun j name bytes id now found =>
          .inl (handlers_of_update k (.inr ⟨_, rfl⟩) j name bytes id now found))
      · cases ran
  | receive k bytes now =>
      simp only [step] at ran
      split at ran
      · split_ifs at ran
        cases ran
        refine .turns _ rfl rfl (.inl rfl) nofun ?_
        intro j name own id later found
        dsimp only at found
        rw [Function.update_apply] at found
        split_ifs at found with same
        · cases found
          exact .inr ⟨by rw [same], rfl⟩
        · exact .inl found
      · cases ran
  | hit k =>
      simp only [step] at ran
      split at ran
      · rename_i pending
        cases ran
        exact record_hit_effect pending
      · cases ran
  | disconnect k =>
      simp only [step] at ran
      split at ran
      · cases ran
        exact .turns _ rfl rfl (.inl rfl) nofun (fun j name bytes id now found =>
          .inl (handlers_of_update k (.inl rfl) j name bytes id now found))
      · cases ran
        exact .turns _ rfl rfl (.inl rfl) nofun (fun j name bytes id now found =>
          .inl (handlers_of_update k (.inl rfl) j name bytes id now found))
      · cases ran

/-- A message in hand was in hand before, or has just been read. -/
theorem parsed_of_effect {overflow : Int → Int32} {server next : HitServer} {op : Step}
    {entry : Entry} (effect : Effect overflow server op next entry) {k : Nat}
    {name bytes : List UInt8} {id : Int32} {now : Int}
    (found : next.handlers k = .parsed name bytes id now) :
    server.handlers k = .parsed name bytes id now ∨
      op = .receive k bytes now ∧ id = atoi overflow (cStr bytes) := by
  cases effect with
  | turns _ _ _ _ _ handlers => exact handlers k name bytes id now found
  | announces later drawn => exact .inl found
  | known pending done =>
      exact .inl (handlers_of_update _ (.inr ⟨_, rfl⟩) k name bytes id now found)
  | unknown pending missing =>
      exact .inl (handlers_of_update _ (.inr ⟨_, rfl⟩) k name bytes id now found)
  | credits latency pending fresh registered =>
      exact .inl (handlers_of_update _ (.inr ⟨_, rfl⟩) k name bytes id now found)

end HitServer

end Finm327.Phase2
