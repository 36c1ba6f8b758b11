import Finm327.Phase2.MomentumCredits

/-!
# No momentum is missed

Every move of a client or of its handler takes away something that is under way, and the last of
them leaves no order unhandled.
-/

namespace Finm327.Phase2

open Finm327.Hft
open Finm327.Hft2026
open Finm327.Library.DecimalText
open Finm327.Library.Runs
  (Config Leads Reachable execute leads_mono leads_until reachable_of_execute_any)
open Function (update)

universe u

variable {PriceT : Type u} [LinearOrder PriceT] {stof : List UInt8 → Option PriceT}
  {overflow : Int → Int32}

theorem order_text_short (id : Int32) : orderText id ≠ [] ∧ (orderText id).length ≤ 11 := by
  have lower := id.le_toInt
  have upper := id.toInt_lt
  rw [orderText]
  cases value : id.toInt with
  | ofNat n =>
      rw [value, Int.ofNat_eq_natCast] at upper
      have digits := (@length_decimal_le_iff n 10 (by decide)).mpr (by omega)
      exact ⟨decimal_ne_nil n, digits.trans (by decide)⟩
  | negSucc n =>
      rw [value] at lower
      have digits := (@length_decimal_le_iff (n + 1) 10 (by decide)).mpr (by omega)
      exact ⟨List.cons_ne_nil _ _, Nat.succ_le_succ digits⟩

theorem Follows.delivers {name : List UInt8} {server : HitServer} {link : PriceLink PriceT}
    {handler : Handler} (follows : Follows stof name server link handler)
    (some : link.down ≠ []) :
    ∃ after, link.deliver stof = .some after ∧ after.down.length < link.down.length ∧
      after.joined = link.joined := by
  obtain ⟨seen, waiting, values, ordered, offered, down, _⟩ := follows.place
  cases waiting with
  | nil => exact absurd down some
  | cons quote waiting =>
      have proper := (follows.waiting offered).1
      have short : quote.message.length < BUFFER_SIZE := by
        have id := (order_text_short quote.id).2
        have price := proper.short
        rw [orderText] at id
        rw [Quote.message, priceMessage, List.length_append, List.length_cons, BUFFER_SIZE]
        omega
      obtain ⟨z, value⟩ := Option.isSome_iff_exists.mp proper.number
      obtain ⟨client, answer, _⟩ := respond_quote proper.plain value link.client
      rw [PriceLink.deliver, down, List.map_cons]
      dsimp only
      rw [if_pos ⟨follows.going, short⟩, answer]
      exact ⟨_, rfl, by simp, rfl⟩

namespace PriceLoop

variable {name : Nat → List UInt8}

/-- The moves of a client and of its handler. -/
def OfClient (k : Nat) (_ : Run PriceT) : PriceMove → Prop
  | .deliver j => j = k
  | .register j => j = k
  | .receive j _ => j = k
  | .hit j => j = k
  | _ => False

section Progress

variable {config : Run PriceT} {k : Nat}

/-- The moves of one client from a reachable state lead to reachable states. -/
theorem reachable_leads {later : Run PriceT}
    (reached : Reachable (step overflow stof name) (Quoted stof) initial config)
    (leads : Leads (step overflow stof name) (OfClient k) config later) :
    Reachable (step overflow stof name) (Quoted stof) initial later := by
  refine reached.trans (leads_mono ?_ leads)
  intro before move permitted
  cases move with
  | draw => exact absurd permitted id
  | announce | send | accept | deliver | register | receive | hit | disconnect => trivial

theorem client_reads
    (reached : Reachable (step overflow stof name) (Quoted stof) initial config) :
    ∃ later : Run PriceT, Leads (step overflow stof name) (OfClient k) config later ∧
      (later.state.links k).down = [] ∧
      (later.state.links k).offered = (config.state.links k).offered ∧
      (later.state.links k).joined = (config.state.links k).joined := by
  let Holds (later : Run PriceT) : Prop :=
    Reachable (step overflow stof name) (Quoted stof) initial later ∧
      (later.state.links k).offered = (config.state.links k).offered ∧
      (later.state.links k).joined = (config.state.links k).joined
  have moves (before : Run PriceT) (holds : Holds before) :
      (before.state.links k).down = [] ∨ ∃ move next sight, OfClient k before move ∧
        step overflow stof name before.state move = some (next, sight) ∧
        Holds (before.push move next sight) ∧
        (next.links k).down.length < (before.state.links k).down.length := by
    obtain ⟨reachedToo, offered, joined⟩ := holds
    by_cases none : (before.state.links k).down = []
    · exact .inl none
    · have follows := (reachable_sound reachedToo).follows k
      obtain ⟨after, delivered, fewer, joinedToo⟩ := follows.delivers none
      have ran : step overflow stof name before.state (.deliver k) =
          some (before.state.setLink k after, .silent) := by
        simp only [step, delivered, Option.map_some]
      have own : (before.state.setLink k after).links k = after := Function.update_self ..
      refine .inr ⟨.deliver k, _, _, rfl, ran, ⟨reachedToo.tail (.run trivial ran), ?_, ?_⟩, ?_⟩
      · rw [Config.push_state, own, (follows.deliver delivered).2, offered]
      · rw [Config.push_state, own, joinedToo, joined]
      · rw [own]
        exact fewer
  obtain ⟨later, leads, ⟨_, same⟩, read⟩ := leads_until Holds
    (fun later => (later.state.links k).down = []) (fun later => (later.state.links k).down.length)
    moves ⟨reached, rfl, rfl⟩
  exact ⟨later, leads, read, same⟩

/-- What is left to do for a handler. -/
def handling (loop : PriceLoop PriceT) (k : Nat) : Nat :=
  2 * (loop.links k).up.length +
    match loop.server.handlers k with
    | .parsed _ _ _ _ => 1
    | _ => 0

omit [LinearOrder PriceT] in
theorem take_move (op : List UInt8 → Step) {message : List UInt8} {rest : List (List UInt8)}
    {loop : PriceLoop PriceT} (up : (loop.links k).up = message :: rest) {server : HitServer}
    (ran : HitServer.step overflow loop.server (op message) = some (server, .silent)) :
    ∃ next, loop.take overflow k op = some (next, .server .silent) ∧
      next.server = server ∧ (next.links k).up = rest ∧
      (next.links k).down = (loop.links k).down ∧
      (next.links k).offered = (loop.links k).offered ∧
      (next.links k).joined = (loop.links k).joined := by
  let link : PriceLink PriceT := { loop.links k with up := rest }
  have own : (setLink { loop with server := server } k link).links k = link :=
    Function.update_self ..
  refine ⟨setLink { loop with server := server } k link, ?_, rfl, ?_⟩
  · simp only [take, up, onServer, ran, Option.map_some]
    rfl
  · rw [own]
    exact ⟨rfl, rfl, rfl, rfl⟩

/-- The handler has a move that leaves it less to do, and the client as it is. -/
def Handles (overflow : Int → Int32) (stof : List UInt8 → Option PriceT)
    (name : Nat → List UInt8) (config : Run PriceT) (k : Nat) : Prop :=
  ∃ move next sight, OfClient k config move ∧ Quoted stof config move ∧
    step overflow stof name config.state move = some (next, sight) ∧
    handling next k < handling config.state k ∧
    (next.links k).down = (config.state.links k).down ∧
    (next.links k).offered = (config.state.links k).offered ∧
    (next.links k).joined = (config.state.links k).joined

theorem handles_name (named : name k ≠ [] ∧ (name k).length < BUFFER_SIZE)
    (handler : config.state.server.handlers k = .naming) {rest : List (List UInt8)}
    (up : (config.state.links k).up = name k :: rest) :
    Handles overflow stof name config k := by
  obtain ⟨server, ran, after⟩ : ∃ server, HitServer.step overflow config.state.server
      (.register k (name k)) = some (server, .silent) ∧
        server.handlers k = .receiving (cStr (name k)) := by
    simp only [HitServer.step, handler]
    rw [if_pos named]
    exact ⟨_, rfl, Function.update_self ..⟩
  obtain ⟨next, moved, same, left, others⟩ := take_move (.register k) up ran
  refine ⟨.register k, next, _, rfl, trivial, moved, ?_, others⟩
  rw [handling, handling, left, same, after, handler, up, List.length_cons]
  dsimp only
  omega

theorem handles_order {own : List UInt8} {id : Int32}
    (handler : config.state.server.handlers k = .receiving own) {rest : List (List UInt8)}
    (up : (config.state.links k).up = orderText id :: rest) :
    Handles overflow stof name config k := by
  have fits : orderText id ≠ [] ∧ (orderText id).length < BUFFER_SIZE := by
    have short := order_text_short id
    exact ⟨short.1, short.2.trans_lt (by decide)⟩
  obtain ⟨server, ran, number, after⟩ : ∃ server, HitServer.step overflow
      config.state.server (.receive k (orderText id) 0) = some (server, .silent) ∧
        ∃ number, server.handlers k = .parsed own (orderText id) number 0 := by
    simp only [HitServer.step, handler]
    rw [if_pos fits]
    exact ⟨_, rfl, _, Function.update_self ..⟩
  obtain ⟨next, moved, same, left, others⟩ :=
    take_move (fun message => .receive k message 0) up ran
  refine ⟨.receive k 0, next, _, rfl, trivial, moved, ?_, others⟩
  rw [handling, handling, left, same, after, handler, up, List.length_cons]
  dsimp only
  omega

theorem handles_hit {own bytes : List UInt8} {id : Int32} {now : Int}
    (handler : config.state.server.handlers k = .parsed own bytes id now) :
    Handles overflow stof name config k := by
  obtain ⟨server, entry, ran, after⟩ : ∃ server entry,
      HitServer.step overflow config.state.server (.hit k) = some (server, entry) ∧
        server.handlers k = .receiving own := by
    simp only [HitServer.step, handler]
    exact ⟨_, _, rfl, Function.update_self ..⟩
  refine ⟨.hit k, { config.state with server := server }, .server entry, rfl, trivial, ?_, ?_,
    rfl, rfl, rfl⟩
  · simp only [step, onServer, ran, Option.map_some]
  · rw [handling, handling, handler]
    dsimp only
    rw [after]
    dsimp only
    omega

theorem handler_moves (named : ∀ j, name j ≠ [] ∧ (name j).length < BUFFER_SIZE)
    (reached : Reachable (step overflow stof name) (Quoted stof) initial config)
    (joined : (config.state.links k).joined = true) :
    ((∃ own, config.state.server.handlers k = .receiving own) ∧
      (config.state.links k).up = []) ∨ Handles overflow stof name config k := by
  obtain ⟨_, _, _, ordered, _, _, _, _, _, accounted⟩ :=
    ((reachable_sound reached).follows k).place
  rw [joined] at accounted
  cases handler : config.state.server.handlers k with
  | naming =>
      rw [handler] at accounted
      exact .inr (handles_name (named k) handler accounted)
  | receiving own =>
      rw [handler] at accounted
      obtain ⟨_, done, left, _, up, _⟩ := accounted
      cases left with
      | nil => exact .inl ⟨⟨own, rfl⟩, up⟩
      | cons id left => exact .inr (handles_order handler up)
  | parsed own bytes id now => exact .inr (handles_hit handler)
  | closed =>
      rw [handler] at accounted
      exact absurd accounted id

theorem handler_handles (named : ∀ j, name j ≠ [] ∧ (name j).length < BUFFER_SIZE)
    (reached : Reachable (step overflow stof name) (Quoted stof) initial config)
    (joined : (config.state.links k).joined = true) :
    ∃ later : Run PriceT, Leads (step overflow stof name) (OfClient k) config later ∧
      (∃ own, later.state.server.handlers k = .receiving own) ∧
      (later.state.links k).up = [] ∧
      (later.state.links k).down = (config.state.links k).down ∧
      (later.state.links k).offered = (config.state.links k).offered := by
  let Holds (later : Run PriceT) : Prop :=
    Reachable (step overflow stof name) (Quoted stof) initial later ∧
      (later.state.links k).joined = true ∧
      (later.state.links k).down = (config.state.links k).down ∧
      (later.state.links k).offered = (config.state.links k).offered
  have moves (before : Run PriceT) (holds : Holds before) :
      ((∃ own, before.state.server.handlers k = .receiving own) ∧
        (before.state.links k).up = []) ∨ ∃ move next sight, OfClient k before move ∧
        step overflow stof name before.state move = some (next, sight) ∧
        Holds (before.push move next sight) ∧ handling next k < handling before.state k := by
    obtain ⟨reachedToo, joinedToo, down, offered⟩ := holds
    apply (handler_moves named reachedToo joinedToo).imp_right
    intro ⟨move, next, sight, permitted, quoted, ran, less, downToo, offeredToo, stays⟩
    exact ⟨move, next, sight, permitted, ran, ⟨reachedToo.tail (.run quoted ran),
      stays.trans joinedToo, downToo.trans down, offeredToo.trans offered⟩, less⟩
  obtain ⟨later, leads, ⟨_, _, same⟩, receiving, none⟩ := leads_until Holds
    (fun later => (∃ own, later.state.server.handlers k = .receiving own) ∧
      (later.state.links k).up = []) (fun later => handling later.state k)
    moves ⟨reached, joined, rfl, rfl⟩
  exact ⟨later, leads, receiving, none, same⟩

/-- Whatever is under way, a client in the list and its handler come by themselves to where every
price that continues a rise or a fall of what the client was sent is hit. -/
theorem momentum_credited (named : ∀ j, name j ≠ [] ∧ (name j).length < BUFFER_SIZE)
    (reached : Reachable (step overflow stof name) (Quoted stof) initial config)
    (joined : (config.state.links k).joined = true) :
    ∃ later : Run PriceT, Leads (step overflow stof name) (OfClient k) config later ∧
      (later.state.links k).down = [] ∧ (later.state.links k).up = [] ∧
      ∀ id, Continues stof (config.state.links k).offered id →
        id ∈ later.state.server.priceAlreadyHit := by
  obtain ⟨read, leads, down, offered, stays⟩ := @client_reads _ _ _ overflow name config k reached
  have reachedToo := reachable_leads reached leads
  obtain ⟨later, leadsToo, ⟨own, receiving⟩, up, downToo, offeredToo⟩ :=
    handler_handles named reachedToo (stays.trans joined)
  refine ⟨later, leads.trans leadsToo, downToo.trans down, up, ?_⟩
  intro id continues
  obtain ⟨seen, waiting, values, ordered, all, under, _, _, orders, accounted⟩ :=
    ((reachable_sound (reachable_leads reachedToo leadsToo)).follows k).place
  rw [downToo, down] at under
  rw [List.map_eq_nil_iff.mp under.symm, List.append_nil, offeredToo, offered] at all
  rw [receiving] at accounted
  obtain ⟨_, done, left, both, none, handled⟩ := accounted
  rw [up] at none
  rw [List.map_eq_nil_iff.mp none.symm, List.append_nil] at both
  apply handled
  rw [← both, orders, ← all]
  exact continues

theorem momentum_credited_sample :
    ∃ config : Run Int, Reachable (step (fun _ => 0) sampleStof fun _ => [97]) (Quoted sampleStof)
        initial config ∧ config.state.server.priceAlreadyHit = ∅ ∧
      ∃ later : Run Int, Leads (step (fun _ => 0) sampleStof fun _ => [97]) (OfClient 0)
          config later ∧ 2 ∈ later.state.server.priceAlreadyHit := by
  have completes : (execute (step (fun _ => 0) sampleStof fun _ => [97]) (Quoted sampleStof)
      (.start initial) sampleMoves).any (fun config => decide
        ((config.state.links 0).joined = true ∧ config.state.server.priceAlreadyHit = ∅ ∧
          (config.state.links 0).offered = [⟨0, [49]⟩, ⟨1, [50]⟩, ⟨2, [51]⟩])) = true := by
    decide
  obtain ⟨config, reached, joined, none, offered⟩ := reachable_of_execute_any completes
  have fits : ([97] : List UInt8) ≠ [] ∧ ([97] : List UInt8).length < BUFFER_SIZE := by decide
  obtain ⟨later, leads, _, _, credited⟩ := momentum_credited (fun _ => fits) reached joined
  refine ⟨config, reached, none, later, leads, credited 2 ?_⟩
  rw [offered]
  exact ⟨[], _, _, _, [], rfl, rfl, 1, 2, 3, by decide, by decide, by decide, by decide⟩

end Progress

end PriceLoop

end Finm327.Phase2
