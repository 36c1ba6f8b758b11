import Finm327.Phase2.PriceLoop

/-!
# Credits for momentum

A client orders the prices that continue a rise or a fall of what it was sent, and each of its
orders is under way, in the hands of its handler, or hit.
-/

namespace Finm327.Phase2

open Finm327.Hft
open Finm327.Hft2026
open Finm327.Library.Maps
open Finm327.Library.Runs (Config Reachable execute reachable_invariant reachable_of_execute_any)
open Function (update)

universe u

def orderText (id : Int32) : List UInt8 := formatInt id.toInt

/-- Where the orders are that a client has placed: under way, in the hands of its handler, or
handled. -/
def Accounted (name : List UInt8) (hits : Finset Int32) (ordered : List Int32) (joined : Bool)
    (up : List (List UInt8)) : Handler → Prop
  | .naming => up = if joined then name :: ordered.map orderText else []
  | .receiving _ => joined = true ∧ ∃ done left, ordered = done ++ left ∧
      up = left.map orderText ∧ ∀ id ∈ done, id ∈ hits
  | .parsed _ bytes id _ => joined = true ∧ ∃ done left, ordered = done ++ id :: left ∧
      up = left.map orderText ∧ bytes = orderText id ∧ ∀ other ∈ done, other ∈ hits
  | .closed => False

theorem Accounted.mono {name : List UInt8} {hits more : Finset Int32} {ordered : List Int32}
    {joined : Bool} {up : List (List UInt8)} {handler : Handler}
    (accounted : Accounted name hits ordered joined up handler) (subset : hits ⊆ more) :
    Accounted name more ordered joined up handler := by
  cases handler with
  | naming => exact accounted
  | receiving own =>
      obtain ⟨here, done, left, all, under, handled⟩ := accounted
      exact ⟨here, done, left, all, under, fun id member => subset (handled id member)⟩
  | parsed own bytes id now =>
      obtain ⟨here, done, left, all, under, text, handled⟩ := accounted
      exact ⟨here, done, left, all, under, text, fun id member => subset (handled id member)⟩
  | closed => exact accounted

/-- One more order is under way. -/
theorem Accounted.order {name : List UInt8} {hits : Finset Int32} {ordered : List Int32}
    {up : List (List UInt8)} {handler : Handler}
    (accounted : Accounted name hits ordered true up handler) (more : List Int32) :
    Accounted name hits (ordered ++ more) true (up ++ more.map orderText) handler := by
  cases handler with
  | naming =>
      have own : up = name :: ordered.map orderText := accounted
      simp [Accounted, own]
  | receiving own =>
      obtain ⟨here, done, left, rfl, rfl, handled⟩ := accounted
      exact ⟨here, done, left ++ more, by simp, by simp, handled⟩
  | parsed own bytes id now =>
      obtain ⟨here, done, left, rfl, rfl, text, handled⟩ := accounted
      exact ⟨here, done, left ++ more, by simp, by simp, text, handled⟩
  | closed => exact accounted

variable {PriceT : Type u} [LinearOrder PriceT] {stof : List UInt8 → Option PriceT}
  {overflow : Int → Int32}

/-- The client has read the first ones of the quotes that it was sent, keeps the last three
prices of them, and has ordered those that continue a rise or a fall. -/
structure Follows (stof : List UInt8 → Option PriceT) (name : List UInt8) (server : HitServer)
    (link : PriceLink PriceT) (handler : Handler) : Prop where
  going : link.ended = false
  idle : link.joined = false → link.offered = []
  known : ∀ quote ∈ link.offered, Proper stof quote.price ∧ quote.id ∈ server.priceTimestamps
  place : ∃ seen waiting values ordered, link.offered = seen ++ waiting ∧
    link.down = waiting.map Quote.message ∧ Reads stof seen values ∧
    link.client.priceHistory = lastThree values ∧
    (∀ id, id ∈ ordered ↔ Continues stof seen id) ∧
    Accounted name server.priceAlreadyHit ordered link.joined link.up handler

section Link

variable {name : List UInt8} {server next : HitServer} {link after : PriceLink PriceT}
  {handler : Handler}

theorem continues_nil {id : Int32} : ¬ Continues stof [] id := by
  intro ⟨before, a, b, c, after, split, _⟩
  have length := congrArg List.length split
  simp at length

theorem follows_idle (name : List UInt8) (server : HitServer) :
    Follows stof name server .idle .naming where
  going := rfl
  idle _ := rfl
  known _ contrary := absurd contrary List.not_mem_nil
  place := ⟨[], [], [], [], rfl, rfl, rfl, rfl,
    fun _ => ⟨fun contrary => absurd contrary List.not_mem_nil,
      fun contrary => absurd contrary continues_nil⟩, rfl⟩

/-- The handler goes on, which concerns the messages under way only. -/
theorem Follows.handle (follows : Follows stof name server link handler) {rest : List (List UInt8)}
    {later : Handler} (timestamps : ∀ id, id ∈ server.priceTimestamps → id ∈ next.priceTimestamps)
    (handled : ∀ ordered, (∀ id ∈ ordered, id ∈ server.priceTimestamps) →
      Accounted name server.priceAlreadyHit ordered link.joined link.up handler →
      Accounted name next.priceAlreadyHit ordered link.joined rest later) :
    Follows stof name next { link with up := rest } later := by
  obtain ⟨seen, waiting, values, ordered, offered, down, reads, history, orders, accounted⟩ :=
    follows.place
  refine ⟨follows.going, follows.idle, ?_, seen, waiting, values, ordered, offered, down, reads,
    history, orders, handled ordered ?_ accounted⟩
  · intro quote member
    exact ⟨(follows.known quote member).1, timestamps _ (follows.known quote member).2⟩
  · intro id member
    obtain ⟨before, a, b, c, after, split, own, _⟩ := (orders id).mp member
    rw [← own]
    apply (follows.known c _).2
    rw [offered, split]
    simp

/-- The server goes on without this client. -/
theorem Follows.keep (follows : Follows stof name server link handler)
    (timestamps : ∀ id, id ∈ server.priceTimestamps → id ∈ next.priceTimestamps)
    (hits : server.priceAlreadyHit ⊆ next.priceAlreadyHit) :
    Follows stof name next link handler := by
  show Follows stof name next { link with up := link.up } handler
  apply follows.handle timestamps
  intro ordered _ accounted
  exact accounted.mono hits

theorem Follows.offer (follows : Follows stof name server link handler) {quote : Quote}
    (proper : Proper stof quote.price) (announced : quote.id ∈ server.priceTimestamps) :
    Follows stof name server (link.offer quote) handler := by
  rw [PriceLink.offer]
  split_ifs with joined
  · obtain ⟨seen, waiting, values, ordered, offered, down, reads, history, orders, accounted⟩ :=
      follows.place
    refine ⟨follows.going, ?_, ?_, seen, waiting ++ [quote], values, ordered, ?_, ?_, reads,
      history, orders, accounted⟩
    · intro contrary
      exact absurd joined (by simpa using contrary)
    · intro other member
      rcases List.mem_append.mp member with old | last
      · exact follows.known other old
      · rw [List.mem_singleton.mp last]
        exact ⟨proper, announced⟩
    · simp [offered]
    · simp [down]
  · exact follows

theorem Follows.accept (follows : Follows stof name server link handler)
    (absent : link.joined = false) (naming : handler = .naming) :
    Follows stof name server { link with joined := true, up := [name] } handler := by
  obtain ⟨seen, waiting, values, ordered, offered, down, reads, history, orders, _⟩ :=
    follows.place
  have none : seen = [] := by
    have nothing := follows.idle absent
    rw [offered] at nothing
    exact (List.append_eq_nil_iff.mp nothing).1
  have unordered : ordered = [] := by
    apply List.eq_nil_iff_forall_not_mem.mpr
    intro id member
    have continues := (orders id).mp member
    rw [none] at continues
    exact continues_nil continues
  refine ⟨follows.going, fun contrary => Bool.noConfusion contrary, follows.known, seen, waiting,
    values, ordered, offered, down, reads, history, orders, ?_⟩
  rw [naming, Accounted, unordered]
  rfl

/-- The next quote has the text of a number, and the client is in the list. -/
theorem Follows.waiting (follows : Follows stof name server link handler)
    {seen waiting : List Quote} {quote : Quote} (offered : link.offered = seen ++ quote :: waiting) :
    Proper stof quote.price ∧ link.joined = true := by
  have member : quote ∈ link.offered := by
    rw [offered]
    simp
  refine ⟨(follows.known quote member).1, ?_⟩
  cases here : link.joined with
  | true => rfl
  | false =>
      rw [follows.idle here] at member
      cases member

/-- The client reads the next quote, and orders it when it continues a rise or a fall. -/
theorem Follows.deliver (follows : Follows stof name server link handler)
    (ran : link.deliver stof = some after) :
    Follows stof name server after handler ∧ after.offered = link.offered := by
  obtain ⟨seen, waiting, values, ordered, offered, down, reads, history, orders, accounted⟩ :=
    follows.place
  unfold PriceLink.deliver at ran
  cases waiting with
  | nil =>
      rw [down] at ran
      cases ran
  | cons quote waiting =>
      rw [down, List.map_cons] at ran
      dsimp only at ran
      split_ifs at ran
      obtain ⟨proper, joined⟩ := follows.waiting offered
      obtain ⟨z, value⟩ := Option.isSome_iff_exists.mp proper.number
      obtain ⟨client, answer, historyToo⟩ := respond_quote proper.plain value link.client
      have readsToo : Reads stof (seen ++ [quote]) (values ++ [z]) := by
        rw [Reads, List.map_append, List.map_append, show seen.map _ = _ from reads]
        simp [value]
      have continuesToo (id : Int32) := @continues_concat PriceT _ stof seen quote id
      rw [remember_last history z] at answer historyToo
      rw [answer] at ran
      rw [joined] at accounted
      by_cases momentum : MomentumClient.momentum (lastThree (values ++ [z])) = true
      · rw [if_pos momentum] at ran
        cases ran
        have more := accounted.order [quote.id]
        rw [← joined] at more
        refine ⟨⟨follows.going, follows.idle, follows.known, seen ++ [quote], waiting,
          values ++ [z], ordered ++ [quote.id], by simp [offered], rfl, readsToo, historyToo,
          ?_, more⟩, rfl⟩
        intro id
        rw [continuesToo, ← momentum_iff reads value, List.mem_append, List.mem_singleton,
          orders]
        simp [momentum, eq_comm]
      · rw [if_neg momentum] at ran
        cases ran
        have same := accounted.order []
        rw [← joined, List.append_nil] at same
        refine ⟨⟨follows.going, follows.idle, follows.known, seen ++ [quote], waiting,
          values ++ [z], ordered, by simp [offered], rfl, readsToo, historyToo,
          ?_, same⟩, rfl⟩
        intro id
        rw [continuesToo, ← momentum_iff reads value, orders]
        simp [momentum]

end Link

/-! ## The whole system -/

namespace PriceLoop

variable {name : Nat → List UInt8} {loop next : PriceLoop PriceT} {sights : List Sight}

/-- The server's tables, what every client follows, and whom the hits are credited to. -/
structure Sound (overflow : Int → Int32) (stof : List UInt8 → Option PriceT)
    (name : Nat → List UInt8) (loop : PriceLoop PriceT) (sights : List Sight) : Prop where
  tables : HitServer.Sound overflow loop.server (Sight.entries sights)
  follows : ∀ k, Follows stof (name k) loop.server (loop.links k) (loop.server.handlers k)
  sent : ∀ k, (loop.links k).offered <:+ Sight.quotes sights
  drawn : ∀ id price, loop.server.broadcast = .drawn id price → Proper stof price
  announced : ∀ id price, loop.server.broadcast = .announced id price →
    Proper stof price ∧ id ∈ loop.server.priceTimestamps
  credits : ∀ k own bytes id latency, .hit k own bytes id latency ∈ Sight.entries sights →
    Continues stof (loop.links k).offered id

theorem initial_sound : Sound overflow stof name (initial : PriceLoop PriceT) [] where
  tables := HitServer.initial_sound
  follows _ := follows_idle _ _
  sent _ := List.suffix_refl _
  drawn _ _ contrary := by cases contrary
  announced _ _ contrary := by cases contrary
  credits _ _ _ _ _ contrary := absurd contrary List.not_mem_nil

/-- The tables after a step of the server. -/
theorem Sound.tables_after (sound : Sound overflow stof name loop sights) {op : Step}
    {server : HitServer} {sight : Sight} {entry : Entry}
    (ran : HitServer.step overflow loop.server op = some (server, entry))
    (shown : sight.entry = some entry) :
    HitServer.Sound overflow server (Sight.entries (sights ++ [sight])) := by
  rw [Sight.entries_append, shown]
  exact HitServer.step_sound sound.tables ran

/-- Hits that were credited before. -/
theorem Sound.credits_after (sound : Sound overflow stof name loop sights) {sight : Sight}
    (quiet : ∀ k own bytes id latency, sight.entry ≠ some (.hit k own bytes id latency))
    (offered : ∀ k, ∃ more, (next.links k).offered = (loop.links k).offered ++ more) :
    ∀ k own bytes id latency, .hit k own bytes id latency ∈ Sight.entries (sights ++ [sight]) →
      Continues stof (next.links k).offered id := by
  intro k own bytes id latency member
  rw [Sight.entries_append, List.mem_append, Option.mem_toList] at member
  obtain ⟨more, all⟩ := offered k
  rw [all]
  rcases member with old | last
  · exact (sound.credits k own bytes id latency old).append more
  · exact absurd last (quiet k own bytes id latency)

theorem suffix_quotes {list : List Quote} (part : list <:+ Sight.quotes sights) {sight : Sight}
    (quiet : sight.quote = none) : list <:+ Sight.quotes (sights ++ [sight]) := by
  rw [Sight.quotes_append, quiet]
  simpa using part

/-- Nothing but one connection changes. -/
theorem Sound.link (sound : Sound overflow stof name loop sights) {k : Nat}
    {link : PriceLink PriceT}
    (follows : Follows stof (name k) loop.server link (loop.server.handlers k))
    (offered : link.offered = (loop.links k).offered) :
    Sound overflow stof name (loop.setLink k link) (sights ++ [.silent]) := by
  have links (j : Nat) : ((loop.setLink k link).links j).offered = (loop.links j).offered := by
    by_cases same : j = k
    · simp [setLink, same, offered]
    · simp [setLink, same]
  constructor
  · rw [Sight.entries_append, show Sight.entry .silent = none from rfl, Option.toList_none,
      List.append_nil]
    exact sound.tables
  · intro j
    by_cases same : j = k
    · rw [same]
      simpa [setLink] using follows
    · simpa [setLink, same] using sound.follows j
  · intro j
    rw [links]
    exact suffix_quotes (sound.sent j) rfl
  · exact sound.drawn
  · exact sound.announced
  · apply sound.credits_after
    · intro j own bytes id latency contrary
      cases contrary
    · intro j
      exact ⟨[], by rw [links, List.append_nil]⟩

omit [LinearOrder PriceT] in
theorem on_server_eq {op : Step} {sight : Sight}
    (ran : loop.onServer overflow op = some (next, sight)) :
    ∃ server entry, HitServer.step overflow loop.server op = some (server, entry) ∧
      next = { loop with server := server } ∧ sight = .server entry := by
  obtain ⟨⟨server, entry⟩, moved, same⟩ := Option.map_eq_some_iff.mp ran
  cases same
  exact ⟨server, entry, moved, rfl, rfl⟩

/-- A step of the broadcaster that no client sees. -/
theorem Sound.quiet (sound : Sound overflow stof name loop sights) {op : Step}
    {server : HitServer} {entry : Entry}
    (ran : HitServer.step overflow loop.server op = some (server, entry))
    (handlers : server.handlers = loop.server.handlers)
    (timestamps : ∀ id, id ∈ loop.server.priceTimestamps → id ∈ server.priceTimestamps)
    (hits : server.priceAlreadyHit = loop.server.priceAlreadyHit)
    (quiet : ∀ k own bytes id latency, entry ≠ .hit k own bytes id latency)
    (drawn : ∀ id price, server.broadcast = .drawn id price → Proper stof price)
    (announced : ∀ id price, server.broadcast = .announced id price →
      Proper stof price ∧ id ∈ server.priceTimestamps) :
    Sound overflow stof name { loop with server := server } (sights ++ [.server entry]) where
  tables := sound.tables_after ran rfl
  follows k := by
    dsimp only
    rw [handlers]
    exact (sound.follows k).keep timestamps (by rw [hits])
  sent k := suffix_quotes (sound.sent k) rfl
  drawn := drawn
  announced := announced
  credits := by
    apply sound.credits_after
    · intro k own bytes id latency contrary
      exact quiet k own bytes id latency (Option.some.inj contrary)
    · intro k
      exact ⟨[], (List.append_nil _).symm⟩

/-- A handler goes on, and takes or leaves the next message. -/
theorem Sound.handle (sound : Sound overflow stof name loop sights) {op : Step} {k : Nat}
    {server : HitServer} {entry : Entry} {rest : List (List UInt8)} {handler : Handler}
    (ran : HitServer.step overflow loop.server op = some (server, entry))
    (broadcast : server.broadcast = loop.server.broadcast)
    (timestamps : server.priceTimestamps = loop.server.priceTimestamps)
    (hits : loop.server.priceAlreadyHit ⊆ server.priceAlreadyHit)
    (handlers : server.handlers = update loop.server.handlers k handler)
    (handled : ∀ ordered, (∀ id ∈ ordered, id ∈ loop.server.priceTimestamps) →
      Accounted (name k) loop.server.priceAlreadyHit ordered (loop.links k).joined
        (loop.links k).up (loop.server.handlers k) →
      Accounted (name k) server.priceAlreadyHit ordered (loop.links k).joined rest handler)
    (credited : ∀ j own bytes id latency, entry = .hit j own bytes id latency →
      Continues stof (loop.links j).offered id) :
    Sound overflow stof name
      (setLink { loop with server := server } k { loop.links k with up := rest })
      (sights ++ [.server entry]) := by
  have stays : ∀ id, id ∈ loop.server.priceTimestamps → id ∈ server.priceTimestamps := by
    rw [timestamps]
    exact fun _ member => member
  have links (j : Nat) : ((setLink { loop with server := server } k
      { loop.links k with up := rest }).links j).offered = (loop.links j).offered := by
    by_cases same : j = k
    · simp [setLink, same]
    · simp [setLink, same]
  constructor
  · exact sound.tables_after ran rfl
  · intro j
    by_cases same : j = k
    · rw [same]
      simpa [setLink, handlers] using (sound.follows k).handle stays handled
    · simpa [setLink, handlers, same] using (sound.follows j).keep stays hits
  · intro j
    rw [links]
    exact suffix_quotes (sound.sent j) rfl
  · exact broadcast ▸ sound.drawn
  · rw [show (setLink { loop with server := server } k _).server = server from rfl, broadcast,
      timestamps]
    exact sound.announced
  · intro j own bytes id latency member
    rw [links]
    rw [Sight.entries_append, List.mem_append, Option.mem_toList] at member
    rcases member with old | last
    · exact sound.credits j own bytes id latency old
    · exact credited j own bytes id latency (Option.some.inj last)

/-- A message in hand is an order for a price that continues a rise or a fall. -/
theorem Sound.in_hand (sound : Sound overflow stof name loop sights) {k : Nat}
    {own bytes : List UInt8} {id : Int32} {now : Int}
    (pending : loop.server.handlers k = .parsed own bytes id now) :
    Continues stof (loop.links k).offered id := by
  obtain ⟨seen, waiting, values, ordered, offered, _, _, _, orders, accounted⟩ :=
    (sound.follows k).place
  rw [pending] at accounted
  obtain ⟨_, done, left, all, _⟩ := accounted
  rw [offered]
  apply Continues.append
  rw [← orders, all]
  simp

theorem Sound.register (sound : Sound overflow stof name loop sights) {k : Nat}
    {message : List UInt8} {rest : List (List UInt8)} (up : (loop.links k).up = message :: rest)
    {server : HitServer} {entry : Entry}
    (ran : HitServer.step overflow loop.server (.register k message) = some (server, entry)) :
    Sound overflow stof name
      (setLink { loop with server := server } k { loop.links k with up := rest })
      (sights ++ [.server entry]) := by
  have moved := ran
  simp only [HitServer.step] at moved
  split at moved
  · rename_i naming
    split_ifs at moved
    cases moved
    refine sound.handle ran rfl rfl (Finset.Subset.refl _) rfl ?_ ?_
    · intro ordered _ accounted
      rw [naming, up] at accounted
      cases joined : (loop.links k).joined with
      | false =>
          rw [joined] at accounted
          cases (show message :: rest = [] from accounted)
      | true =>
          rw [joined] at accounted
          have both : message :: rest = name k :: ordered.map orderText := accounted
          exact ⟨rfl, [], ordered, rfl, (List.cons.inj both).2,
            fun _ contrary => absurd contrary List.not_mem_nil⟩
    · intro j own bytes id latency contrary
      cases contrary
  · cases moved

theorem Sound.receive (sound : Sound overflow stof name loop sights) {k : Nat}
    {message : List UInt8} {rest : List (List UInt8)} (up : (loop.links k).up = message :: rest)
    {now : Int} {server : HitServer} {entry : Entry}
    (ran : HitServer.step overflow loop.server (.receive k message now) = some (server, entry)) :
    Sound overflow stof name
      (setLink { loop with server := server } k { loop.links k with up := rest })
      (sights ++ [.server entry]) := by
  have moved := ran
  simp only [HitServer.step] at moved
  split at moved
  · rename_i own receiving
    split_ifs at moved
    cases moved
    refine sound.handle ran rfl rfl (Finset.Subset.refl _) rfl ?_ ?_
    · intro ordered _ accounted
      rw [receiving, up] at accounted
      obtain ⟨joined, done, left, all, under, handled⟩ := accounted
      cases left with
      | nil => cases under
      | cons id left =>
          obtain ⟨text, others⟩ := List.cons.inj under
          have read : atoi overflow (cStr message) = id := by
            rw [text, orderText, atoi_format]
          rw [Accounted, read]
          exact ⟨joined, done, left, all, others, text, handled⟩
    · intro j other bytes id latency contrary
      cases contrary
  · cases moved

omit [LinearOrder PriceT] in
theorem set_same (loop : PriceLoop PriceT) (k : Nat) :
    loop.setLink k { loop.links k with up := (loop.links k).up } = loop := by
  rw [setLink, Function.update_eq_self]

theorem Sound.hit (sound : Sound overflow stof name loop sights) {k : Nat} {server : HitServer}
    {entry : Entry} (ran : HitServer.step overflow loop.server (.hit k) = some (server, entry)) :
    Sound overflow stof name { loop with server := server } (sights ++ [.server entry]) := by
  have moved := ran
  simp only [HitServer.step] at moved
  split at moved
  · rename_i own bytes id now pending
    have continues := sound.in_hand pending
    rw [← set_same { loop with server := server } k]
    unfold HitServer.recordHit at moved
    split_ifs at moved with known
    · cases moved
      refine sound.handle ran rfl rfl (Finset.Subset.refl _) rfl ?_ ?_
      · intro ordered _ accounted
        rw [pending] at accounted
        obtain ⟨joined, done, left, all, under, _, handled⟩ := accounted
        refine ⟨joined, done ++ [id], left, by simp [all], under, ?_⟩
        intro other member
        rcases List.mem_append.mp member with old | last
        · exact handled other old
        · rw [List.mem_singleton.mp last]
          exact known
      · intro j other message number latency contrary
        cases contrary
    · cases found : loop.server.priceTimestamps.lookup id with
      | none =>
          rw [found] at moved
          cases moved
          refine sound.handle ran rfl rfl (Finset.Subset.refl _) rfl ?_ ?_
          · intro ordered registered accounted
            rw [pending] at accounted
            obtain ⟨_, done, left, all, _⟩ := accounted
            have member : id ∈ ordered := by
              rw [all]
              simp
            exact absurd (registered id member) (AList.lookup_eq_none.mp found)
          · intro j other message number latency contrary
            cases contrary
      | some sentAt =>
          rw [found] at moved
          cases moved
          refine sound.handle ran rfl rfl (Finset.subset_insert _ _) rfl ?_ ?_
          · intro ordered _ accounted
            rw [pending] at accounted
            obtain ⟨joined, done, left, all, under, _, handled⟩ := accounted
            refine ⟨joined, done ++ [id], left, by simp [all], under, ?_⟩
            intro other member
            rcases List.mem_append.mp member with old | last
            · exact Finset.mem_insert_of_mem (handled other old)
            · rw [List.mem_singleton.mp last]
              exact Finset.mem_insert_self _ _
          · intro j other message number latency same
            cases same
            exact continues
  · cases moved

/-- A price is drawn. -/
theorem Sound.draw (sound : Sound overflow stof name loop sights) {price : List UInt8}
    (proper : Proper stof price) {server : HitServer} {entry : Entry}
    (ran : HitServer.step overflow loop.server (.draw price) = some (server, entry)) :
    Sound overflow stof name { loop with server := server } (sights ++ [.server entry]) := by
  have moved := ran
  simp only [HitServer.step] at moved
  split at moved
  · cases moved
    refine sound.quiet ran rfl (fun _ member => member) rfl ?_ ?_ ?_
    · intro k own bytes id latency contrary
      cases contrary
    · intro id text same
      cases same
      exact proper
    · intro id text contrary
      cases contrary
  · cases moved

/-- A price enters the table. -/
theorem Sound.announce (sound : Sound overflow stof name loop sights) {now : Int}
    {server : HitServer} {entry : Entry}
    (ran : HitServer.step overflow loop.server (.announce now) = some (server, entry)) :
    Sound overflow stof name { loop with server := server } (sights ++ [.server entry]) := by
  have moved := ran
  simp only [HitServer.step] at moved
  split at moved
  · rename_i id price drawn
    cases moved
    refine sound.quiet ran rfl ?_ rfl ?_ ?_ ?_
    · intro other member
      exact (AList.mem_insert loop.server.priceTimestamps).mpr (.inr member)
    · intro k own bytes other latency contrary
      cases contrary
    · intro other text contrary
      cases contrary
    · intro other text same
      cases same
      exact ⟨sound.drawn id price drawn,
        (AList.mem_insert loop.server.priceTimestamps).mpr (.inl rfl)⟩
  · cases moved

/-- A round of sends. -/
theorem Sound.send (sound : Sound overflow stof name loop sights) {id : Int32}
    {price : List UInt8} (announced : loop.server.broadcast = .announced id price)
    {server : HitServer} {entry : Entry}
    (ran : HitServer.step overflow loop.server .send = some (server, entry)) :
    Sound overflow stof name ⟨server, fun k => (loop.links k).offer ⟨id, price⟩⟩
      (sights ++ [.broadcast ⟨id, price⟩]) := by
  have moved := ran
  simp only [HitServer.step, announced] at moved
  cases moved
  obtain ⟨proper, timed⟩ := sound.announced id price announced
  constructor
  · exact sound.tables_after ran rfl
  · intro k
    have offered := (sound.follows k).offer (show Proper stof (Quote.mk id price).price from proper)
      timed
    exact offered.keep (fun _ member => member) (Finset.Subset.refl _)
  · intro k
    rw [Sight.quotes_append]
    dsimp only [Sight.quote, Option.toList_some]
    rw [PriceLink.offer]
    split_ifs with joined
    · obtain ⟨front, all⟩ := sound.sent k
      exact ⟨front, by simp [← all]⟩
    · rw [(sound.follows k).idle (by simpa using joined)]
      exact List.nil_suffix
  · intro other text contrary
    cases contrary
  · intro other text contrary
    cases contrary
  · apply sound.credits_after
    · intro k own bytes number latency contrary
      cases contrary
    · intro k
      dsimp only
      rw [PriceLink.offer]
      split_ifs
      · exact ⟨[⟨id, price⟩], rfl⟩
      · exact ⟨[], (List.append_nil _).symm⟩

theorem Sound.accept (sound : Sound overflow stof name loop sights) {k : Nat}
    (absent : (loop.links k).joined = false) :
    Sound overflow stof name
      (loop.setLink k { loop.links k with joined := true, up := [name k] })
      (sights ++ [.silent]) := by
  have naming : loop.server.handlers k = .naming := by
    obtain ⟨_, _, _, _, _, _, _, _, _, accounted⟩ := (sound.follows k).place
    rw [absent] at accounted
    cases handler : loop.server.handlers k with
    | naming => rfl
    | receiving | parsed =>
        rw [handler] at accounted
        cases accounted.1
    | closed =>
        rw [handler] at accounted
        exact absurd accounted id
  exact sound.link ((sound.follows k).accept absent naming) rfl

omit [LinearOrder PriceT] in
theorem take_eq {k : Nat} {op : List UInt8 → Step} {sight : Sight}
    (ran : loop.take overflow k op = some (next, sight)) :
    ∃ message rest server entry, (loop.links k).up = message :: rest ∧
      HitServer.step overflow loop.server (op message) = some (server, entry) ∧
      next = setLink { loop with server := server } k { loop.links k with up := rest } ∧
      sight = .server entry := by
  unfold take at ran
  split at ran
  · cases ran
  · rename_i message rest up
    obtain ⟨⟨_, _⟩, moved, same⟩ := Option.map_eq_some_iff.mp ran
    obtain ⟨server, entry, stepped, rfl, rfl⟩ := on_server_eq moved
    cases same
    exact ⟨message, rest, server, entry, up, stepped, rfl, rfl⟩

theorem step_sound (sound : Sound overflow stof name loop sights) {move : PriceMove}
    {sight : Sight} (quoted : ∀ price, move = .draw price → Proper stof price)
    (ran : step overflow stof name loop move = some (next, sight)) :
    Sound overflow stof name next (sights ++ [sight]) := by
  cases move with
  | draw price =>
      obtain ⟨server, entry, moved, rfl, rfl⟩ := on_server_eq ran
      exact sound.draw (quoted price rfl) moved
  | announce now =>
      obtain ⟨server, entry, moved, rfl, rfl⟩ := on_server_eq ran
      exact sound.announce moved
  | send =>
      simp only [step] at ran
      split at ran
      · rename_i id price announced
        obtain ⟨⟨_, _⟩, moved, same⟩ := Option.map_eq_some_iff.mp ran
        obtain ⟨server, entry, stepped, rfl, rfl⟩ := on_server_eq moved
        cases same
        exact sound.send announced stepped
      · cases ran
  | accept k =>
      simp only [step] at ran
      split_ifs at ran with joined
      cases ran
      exact sound.accept (by simpa using joined)
  | deliver k =>
      obtain ⟨link, delivered, same⟩ := Option.map_eq_some_iff.mp ran
      cases same
      obtain ⟨follows, offered⟩ := (sound.follows k).deliver delivered
      exact sound.link follows offered
  | register k =>
      obtain ⟨message, rest, server, entry, up, moved, rfl, rfl⟩ := take_eq ran
      exact sound.register up moved
  | receive k now =>
      obtain ⟨message, rest, server, entry, up, moved, rfl, rfl⟩ := take_eq ran
      exact sound.receive up moved
  | hit k =>
      obtain ⟨server, entry, moved, rfl, rfl⟩ := on_server_eq ran
      exact sound.hit moved
  | disconnect k =>
      simp only [step] at ran
      split_ifs at ran with ended
      rw [(sound.follows k).going] at ended
      cases ended.1

theorem reachable_sound {config : Run PriceT}
    (reached : Reachable (step overflow stof name) (Quoted stof) initial config) :
    Sound overflow stof name config.state config.observations := by
  apply reachable_invariant (fun config : Run PriceT =>
    Sound overflow stof name config.state config.observations) initial_sound ?_ reached
  intro config move next sight sound allowed ran
  rw [Config.push_observations]
  apply step_sound sound ?_ ran
  intro price same
  rw [same] at allowed
  exact allowed

/-- In every interleaving of the price server with momentum clients: no client ends, no price is
credited twice, and a price is credited to a client only when it continues a rise or a fall of the
two prices broadcast right before it, all three of which the client was sent. -/
theorem credits_follow_momentum {config : Run PriceT}
    (reached : Reachable (step overflow stof name) (Quoted stof) initial config) :
    (∀ k, (config.state.links k).ended = false ∧
      (config.state.links k).offered <:+ Sight.quotes config.observations) ∧
    (hitIds (Sight.entries config.observations)).Nodup ∧
    ∀ k own bytes id latency, .server (.hit k own bytes id latency) ∈ config.observations →
      Continues stof (config.state.links k).offered id ∧
      Continues stof (Sight.quotes config.observations) id := by
  have sound := reachable_sound reached
  refine ⟨fun k => ⟨(sound.follows k).going, sound.sent k⟩, sound.tables.once, ?_⟩
  intro k own bytes id latency member
  have continues := sound.credits k own bytes id latency (List.mem_filterMap.mpr ⟨_, member, rfl⟩)
  exact ⟨continues, continues.of_suffix (sound.sent k)⟩

def sampleStof (text : List UInt8) : Option Int := some (atoi (fun _ => 0) text).toInt

/-- Prices 1, 2 and 3 go to a client that has connected before. -/
def sampleMoves : List PriceMove :=
  [.accept 0, .draw [49], .announce 5, .send, .draw [50], .announce 6, .send, .register 0,
    .draw [51], .announce 7, .send]

theorem credits_follow_momentum_sample :
    ∃ config : Run Int, Reachable (step (fun _ => 0) sampleStof fun _ => [97]) (Quoted sampleStof)
        initial config ∧
      hitIds (Sight.entries config.observations) = [2] ∧
      ∀ k own bytes id latency, .server (.hit k own bytes id latency) ∈ config.observations →
        Continues sampleStof (config.state.links k).offered id ∧
        Continues sampleStof (Sight.quotes config.observations) id := by
  have completes : (execute (step (fun _ => 0) sampleStof fun _ => [97]) (Quoted sampleStof)
      (.start initial) (sampleMoves ++ [.deliver 0, .deliver 0, .deliver 0, .receive 0 9,
        .hit 0])).any (fun config => decide (hitIds (Sight.entries config.observations) = [2])) =
        true := by
    decide
  obtain ⟨config, reached, hits⟩ := reachable_of_execute_any completes
  exact ⟨config, reached, hits, (credits_follow_momentum reached).2.2⟩

end PriceLoop

end Finm327.Phase2
