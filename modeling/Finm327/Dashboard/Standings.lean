import Mathlib.Algebra.Order.Field.Basic
import Mathlib.Algebra.Order.Ring.Unbundled.Rat
import Mathlib.Data.List.Lex
import Mathlib.Tactic.Linarith
import Mathlib.Tactic.Positivity
import Finm327.Library.KeyedStreams
import Finm327.Hft.Scoring

/-!
# The standings on the dashboard

Transcribes the aggregation and the table of `update_dashboard` of
`hftprojectstudent/HFTDashboard/hftdashboard_advanced.py`; `hftdashboard.py` has the same without
the ranks. It starts from the challenges that the results file holds, where each player has its
name and its latency as the servers write them. The charts are left out. A `float` is a rational,
and `round` is left out. A name is its bytes, and a winner that is null counts for nobody like the
empty one.
-/

namespace Finm327.Dashboard

open Finm327.Library.Maps
open Finm327.Library.KeyedStreams
open Finm327.Hft2026 (Name)

abbrev Player := Name × Int

structure Challenge where
  challenge_id : Int
  winner : Name
  players : List Player
deriving DecidableEq

structure Stats where
  wins : KeyMap Name Nat
  participation : KeyMap Name Nat
  latenciesByClient : KeyMap Name (List Int)
  rankingData : KeyMap Name (List Nat)

/-- `sorted` keeps players of one latency in their order. -/
def sortedPlayers (ch : Challenge) : List Player :=
  ch.players.mergeSort fun p q => decide (p.2 ≤ q.2)

def considerRank (stats : Stats) (place : Player × Nat) : Stats :=
  if place.1.1 ≠ [] then
    { stats with
      rankingData := upsert [] (· ++ [place.2 + 1]) place.1.1 stats.rankingData }
  else stats

def considerPlayer (stats : Stats) (player : Player) : Stats :=
  if player.1 ≠ [] then
    { stats with
      participation := upsert 0 (· + 1) player.1 stats.participation
      latenciesByClient := upsert [] (· ++ [player.2]) player.1 stats.latenciesByClient }
  else stats

def considerWinner (stats : Stats) (winner : Name) : Stats :=
  if winner ≠ [] then { stats with wins := upsert 0 (· + 1) winner stats.wins } else stats

def considerChallenge (stats : Stats) (ch : Challenge) : Stats :=
  let stats := (sortedPlayers ch).zipIdx.foldl considerRank stats
  let stats := ch.players.foldl considerPlayer stats
  considerWinner stats ch.winner

def aggregate (challenges : List Challenge) : Stats :=
  challenges.foldl considerChallenge ⟨∅, ∅, ∅, ∅⟩

structure Row where
  client : Name
  participation : Nat
  victories : Nat
  winRate : ℚ
  avgLatency : ℚ
  /-- `"N/A"` without a rank. -/
  avgRanking : Option ℚ

namespace Stats

def victories (stats : Stats) (client : Name) : Nat := (stats.wins.lookup client).getD 0

def participations (stats : Stats) (client : Name) : Nat :=
  (stats.participation.lookup client).getD 0

def ranks (stats : Stats) (client : Name) : List Nat := (stats.rankingData.lookup client).getD []

def latencies (stats : Stats) (client : Name) : List Int :=
  (stats.latenciesByClient.lookup client).getD []

/-- `win_rate.get(client, 0)` -/
def winRate (stats : Stats) (client : Name) : ℚ :=
  match stats.participation.lookup client with
  | none => 0
  | some count => if count > 0 then (stats.victories client : ℚ) / count * 100 else 0

def average (values : List ℚ) : ℚ := values.sum / values.length

def row (stats : Stats) (client : Name) : Row where
  client := client
  participation := stats.participations client
  victories := stats.victories client
  winRate := stats.winRate client
  avgLatency :=
    match stats.latenciesByClient.lookup client with
    | none => 0
    | some values => if values = [] then 0 else average (values.map fun value => (value : ℚ))
  avgRanking :=
    match stats.rankingData.lookup client with
    | none => none
    | some ranks => if ranks = [] then none else some (average (ranks.map fun rank => (rank : ℚ)))

/-- `sorted(set(participation.keys()) | set(wins.keys()))` -/
def allClients (stats : Stats) : List Name :=
  (stats.participation.keys ++ stats.wins.keys).dedup.mergeSort fun a b => decide (a ≤ b)

def table (stats : Stats) : List Row := stats.allClients.map stats.row

end Stats

/-! ## What the loops leave in the tables -/

/-- The winners that are named. -/
def winners (challenges : List Challenge) : List Name :=
  (challenges.map Challenge.winner).filter (· ≠ [])

/-- The named players of all challenges. -/
def appearances (challenges : List Challenge) : List Player :=
  challenges.flatMap fun ch => ch.players.filter (·.1 ≠ [])

/-- The same with their places. -/
def places (challenges : List Challenge) : List (Player × Nat) :=
  challenges.flatMap fun ch => (sortedPlayers ch).zipIdx.filter (·.1.1 ≠ [])

def rankTable (places : List (Player × Nat)) : KeyMap Name (List Nat) :=
  upsertAll [] (fun place ranks => ranks ++ [place.2 + 1]) (fun place => place.1.1) places

def latencyTable (players : List Player) : KeyMap Name (List Int) :=
  upsertAll [] (fun player latencies => latencies ++ [player.2]) Prod.fst players

def countTable {Event : Type} (name : Event → Name) (events : List Event) : KeyMap Name Nat :=
  upsertAll 0 (fun _ count => count + 1) name events

theorem countTable_lookup {Event : Type} (key : Event → Name) (events : List Event)
    (name : Name) :
    ((countTable key events).lookup name).getD 0 = (eventsOf key name events).length :=
  upsertAll_count ..

theorem consider_ranks (stats : Stats) (before more : List (Player × Nat))
    (own : stats.rankingData = rankTable before) :
    more.foldl considerRank stats =
      { stats with rankingData := rankTable (before ++ more.filter (·.1.1 ≠ [])) } := by
  induction more generalizing stats before with
  | nil => simp [← own]
  | cons place rest ih =>
      by_cases named : place.1.1 = []
      · simpa [considerRank, named] using ih stats before own
      · rw [List.foldl_cons, ih _ (before ++ [place])]
        · simp [considerRank, named]
        · simp [considerRank, named, own, rankTable, upsertAll]

theorem consider_players (stats : Stats) (before more : List Player)
    (own : stats.participation = countTable Prod.fst before)
    (ownToo : stats.latenciesByClient = latencyTable before) :
    more.foldl considerPlayer stats =
      { stats with
        participation := countTable Prod.fst (before ++ more.filter (·.1 ≠ []))
        latenciesByClient := latencyTable (before ++ more.filter (·.1 ≠ [])) } := by
  induction more generalizing stats before with
  | nil => simp [← own, ← ownToo]
  | cons player rest ih =>
      by_cases named : player.1 = []
      · simpa [considerPlayer, named] using ih stats before own ownToo
      · rw [List.foldl_cons, ih _ (before ++ [player])]
        · simp [considerPlayer, named]
        · simp [considerPlayer, named, own, countTable, upsertAll]
        · simp [considerPlayer, named, ownToo, latencyTable, upsertAll]

/-- Each table is made of its own events, in the order of the challenges. -/
theorem aggregate_eq (challenges : List Challenge) :
    aggregate challenges =
      ⟨countTable id (winners challenges), countTable Prod.fst (appearances challenges),
        latencyTable (appearances challenges), rankTable (places challenges)⟩ := by
  induction challenges using List.reverseRecOn with
  | nil => rfl
  | append_singleton challenges ch ih =>
      have ranked := consider_ranks (aggregate challenges) (places challenges)
        (sortedPlayers ch).zipIdx (by rw [ih])
      have played := consider_players
        { aggregate challenges with
          rankingData := rankTable (places challenges ++
            (sortedPlayers ch).zipIdx.filter (·.1.1 ≠ [])) }
        (appearances challenges) ch.players (by rw [ih]) (by rw [ih])
      have last : aggregate (challenges ++ [ch]) = considerWinner (ch.players.foldl considerPlayer
          ((sortedPlayers ch).zipIdx.foldl considerRank (aggregate challenges))) ch.winner := by
        simp [aggregate, considerChallenge]
      rw [last, ranked, played, ih]
      by_cases named : ch.winner = []
      · simp [considerWinner, named, winners, appearances, places]
      · simp [considerWinner, named, winners, appearances, places, countTable, upsertAll]

/-! ## Fair challenges -/

namespace Challenge

def names (ch : Challenge) : List Name := ch.players.map Prod.fst

/-- No client is listed twice, and a named winner is listed. -/
structure Fair (ch : Challenge) : Prop where
  once : ch.names.Nodup
  won : ch.winner ≠ [] → ch.winner ∈ ch.names

/-- A client with its latency and its place: behind all that were faster, and before all that were
slower. -/
structure Placed (ch : Challenge) (name : Name) (latency : Int) (rank : Nat) : Prop where
  listed : (name, latency) ∈ ch.players
  behind : ch.players.countP (·.2 < latency) < rank
  before : rank ≤ ch.players.countP (·.2 ≤ latency)

theorem place_bounds {players : List Player} (sorted : players.Pairwise (·.2 ≤ ·.2)) {i : Nat}
    {player : Player} (here : players[i]? = some player) :
    players.countP (·.2 < player.2) ≤ i ∧ i < players.countP (·.2 ≤ player.2) := by
  induction players generalizing i with
  | nil => simp at here
  | cons first rest ih =>
      rw [List.pairwise_cons] at sorted
      cases i with
      | zero =>
          simp only [List.getElem?_cons_zero, Option.some.injEq] at here
          have none : rest.countP (·.2 < player.2) = 0 := by
            apply List.countP_eq_zero.mpr
            intro other member
            simpa [← here] using sorted.1 other member
          simp [here, none]
      | succ i =>
          rw [List.getElem?_cons_succ] at here
          have least := sorted.1 player (List.mem_of_getElem? here)
          have inner := ih sorted.2 here
          rw [List.countP_cons, List.countP_cons, if_pos (decide_eq_true least)]
          split_ifs <;> omega

theorem sortedPlayers_perm (ch : Challenge) : (sortedPlayers ch).Perm ch.players :=
  List.mergeSort_perm _ _

theorem sortedPlayers_pairwise (ch : Challenge) :
    (sortedPlayers ch).Pairwise (·.2 ≤ ·.2) := by
  have sorted : (sortedPlayers ch).Pairwise fun p q => decide (p.2 ≤ q.2) = true := by
    apply List.pairwise_mergeSort
    · intro p q r le leToo
      simp only [decide_eq_true_eq] at le leToo ⊢
      exact le_trans le leToo
    · intro p q
      simpa using le_total p.2 q.2
  simpa using sorted

variable {ch : Challenge} {name : Name}

/-- Sorting keeps everyone. -/
theorem place_count (ch : Challenge) (name : Name) :
    ((sortedPlayers ch).zipIdx.filter (·.1.1 = name)).length =
      (ch.players.filter (·.1 = name)).length := by
  have unplaced : (sortedPlayers ch).zipIdx.map Prod.fst = sortedPlayers ch :=
    List.zipIdx_map_fst _ _
  rw [← ((sortedPlayers_perm ch).filter _).length_eq, ← List.countP_eq_length_filter,
    ← List.countP_eq_length_filter]
  conv_rhs => rw [← unplaced, List.countP_map]
  rfl

theorem Fair.player_count (fair : ch.Fair) (name : Name) :
    (ch.players.filter (·.1 = name)).length = if name ∈ ch.names then 1 else 0 := by
  rw [← fair.once.count, names, List.count_eq_countP, List.countP_map,
    ← List.countP_eq_length_filter]
  apply List.countP_congr
  intro player _
  simp

/-- Where a client stands in the sorted list. -/
theorem placed_of_mem {place : Player × Nat} (member : place ∈ (sortedPlayers ch).zipIdx) :
    Placed ch place.1.1 place.1.2 (place.2 + 1) := by
  have here := List.mem_zipIdx_iff_getElem?.mp member
  have bounds := place_bounds (sortedPlayers_pairwise ch) here
  have same := sortedPlayers_perm ch
  constructor
  · exact same.mem_iff.mp (List.mem_of_getElem? here)
  · rw [← same.countP_eq]
    omega
  · rw [← same.countP_eq]
    omega

end Challenge

section Logs

open Challenge

variable {challenges : List Challenge} {name : Name}

/-- The events of a name in a log, where each challenge that lists it has just one. -/
theorem events_each {Event : Type} (key : Event → Name) (events : Challenge → List Event)
    (Of : Challenge → Event → Prop) (named : name ≠ [])
    (single : ∀ ch ∈ challenges,
      ((events ch).filter (key · = name)).length = if name ∈ ch.names then 1 else 0)
    (all : ∀ ch ∈ challenges, ∀ event ∈ events ch, key event = name → Of ch event) :
    List.Forall₂ Of (challenges.filter fun ch => name ∈ ch.names)
      (eventsOf key name (challenges.flatMap fun ch => (events ch).filter (key · ≠ []))) := by
  induction challenges with
  | nil => simp [eventsOf]
  | cons ch rest ih =>
      have own : eventsOf key name ((events ch).filter (key · ≠ [])) =
          (events ch).filter (key · = name) := by
        rw [eventsOf, List.filter_filter]
        apply List.filter_congr
        intro event _
        by_cases same : key event = name
        · simp [same, named]
        · simp [same]
      have one := single ch List.mem_cons_self
      have others := ih (fun other member => single other (List.mem_cons_of_mem ch member))
        (fun other member => all other (List.mem_cons_of_mem ch member))
      rw [eventsOf] at own others
      rw [List.flatMap_cons, eventsOf, List.filter_append, own]
      by_cases present : name ∈ ch.names
      · rw [if_pos present] at one
        obtain ⟨event, only⟩ := List.length_eq_one_iff.mp one
        have member : event ∈ (events ch).filter (key · = name) := by simp [only]
        simp only [List.mem_filter, decide_eq_true_eq] at member
        rw [only, List.filter_cons_of_pos (by simpa using present)]
        exact .cons (all ch List.mem_cons_self event member.1 member.2) others
      · rw [if_neg present] at one
        rw [List.length_eq_zero_iff.mp one, List.filter_cons_of_neg (by simpa using present)]
        exact others

/-- The challenges that list a client. -/
def took (challenges : List Challenge) (name : Name) : List Challenge :=
  challenges.filter fun ch => name ∈ ch.names

theorem latencies_each (fair : ∀ ch ∈ challenges, ch.Fair) (named : name ≠ []) :
    List.Forall₂ (fun ch latency => (name, latency) ∈ ch.players) (took challenges name)
      ((aggregate challenges).latencies name) := by
  rw [Stats.latencies, aggregate_eq, latencyTable, upsertAll_collect, List.forall₂_map_right_iff]
  apply events_each Prod.fst Challenge.players _ named
  · exact fun ch member => (fair ch member).player_count name
  · intro ch _ player listed own
    exact own ▸ listed

theorem ranks_each (fair : ∀ ch ∈ challenges, ch.Fair) (named : name ≠ []) :
    List.Forall₂ (fun ch rank => ∃ latency, ch.Placed name latency rank) (took challenges name)
      ((aggregate challenges).ranks name) := by
  rw [Stats.ranks, aggregate_eq, rankTable, upsertAll_collect, List.forall₂_map_right_iff]
  apply events_each (fun place => place.1.1) (fun ch => (sortedPlayers ch).zipIdx) _ named
  · exact fun ch member => (place_count ch name).trans ((fair ch member).player_count name)
  · intro ch _ place member own
    exact ⟨place.1.2, own ▸ placed_of_mem member⟩

theorem participations_eq (fair : ∀ ch ∈ challenges, ch.Fair) (named : name ≠ []) :
    (aggregate challenges).participations name = (took challenges name).length := by
  have each := latencies_each fair named
  rw [each.length_eq, Stats.latencies, Stats.participations, aggregate_eq, countTable_lookup,
    latencyTable, upsertAll_collect, List.length_map]

theorem victories_eq (named : name ≠ []) :
    (aggregate challenges).victories name = challenges.countP fun ch => ch.winner = name := by
  rw [Stats.victories, aggregate_eq, countTable_lookup, eventsOf, winners,
    List.filter_filter, ← List.countP_eq_length_filter, List.countP_map]
  apply List.countP_congr
  intro ch _
  by_cases same : ch.winner = name
  · simp [same, named]
  · simp [same]

/-- Who wins takes part. -/
theorem victories_le (fair : ∀ ch ∈ challenges, ch.Fair) (named : name ≠ []) :
    (aggregate challenges).victories name ≤ (aggregate challenges).participations name := by
  rw [victories_eq named, participations_eq fair named, took, ← List.countP_eq_length_filter]
  apply List.countP_mono_left
  intro ch member wins
  have own : ch.winner = name := of_decide_eq_true wins
  have listed := (fair ch member).won (own ▸ named)
  exact decide_eq_true (own ▸ listed)

/-! ## The table -/

/-- The row of a client: its averages are over the challenges that list it. -/
structure Standing (challenges : List Challenge) (row : Row) : Prop where
  participation : row.participation = (took challenges row.client).length
  victories : row.victories = challenges.countP fun ch => ch.winner = row.client
  winRate : row.winRate = (row.victories : ℚ) / row.participation * 100
  possible : 0 ≤ row.winRate ∧ row.winRate ≤ 100
  avgLatency : ∃ latencies : List Int,
    row.avgLatency = Stats.average (latencies.map fun value => (value : ℚ)) ∧
    List.Forall₂ (fun ch latency => (row.client, latency) ∈ ch.players)
      (took challenges row.client) latencies
  avgRanking : ∃ ranks : List Nat,
    row.avgRanking = some (Stats.average (ranks.map fun rank => (rank : ℚ))) ∧
    List.Forall₂ (fun ch rank => ∃ latency, ch.Placed row.client latency rank)
      (took challenges row.client) ranks

theorem percentage_possible {part whole : Nat} (le : part ≤ whole) :
    0 ≤ (part : ℚ) / whole * 100 ∧ (part : ℚ) / whole * 100 ≤ 100 := by
  have parts : (0 : ℚ) ≤ part := by positivity
  have wholes : (part : ℚ) ≤ whole := by exact_mod_cast le
  have ratio : (part : ℚ) / whole ≤ 1 := div_le_one_of_le₀ wholes (le_trans parts wholes)
  constructor
  · positivity
  · linarith

theorem row_standing (fair : ∀ ch ∈ challenges, ch.Fair) (named : name ≠ [])
    (present : took challenges name ≠ []) :
    Standing challenges ((aggregate challenges).row name) := by
  have count := participations_eq fair named
  have le := victories_le fair named
  have latencies := latencies_each fair named
  have ranks := ranks_each fair named
  have some_took : 0 < (took challenges name).length := List.length_pos_iff.mpr present
  have rate : (aggregate challenges).winRate name =
      ((aggregate challenges).victories name : ℚ) /
        (aggregate challenges).participations name * 100 := by
    rw [Stats.participations] at count ⊢
    rw [Stats.winRate]
    cases found : (aggregate challenges).participation.lookup name with
    | none => simp [found, ← count] at some_took
    | some value => simp_all
  constructor
  · exact count
  · exact victories_eq named
  · exact rate
  · rw [show ((aggregate challenges).row name).winRate = _ from rate]
    exact percentage_possible le
  · refine ⟨_, ?_, latencies⟩
    have length := latencies.length_eq
    rw [Stats.latencies] at length ⊢
    cases found : (aggregate challenges).latenciesByClient.lookup name with
    | none => simp [found, length] at some_took
    | some values =>
        have full : values ≠ [] := by
          intro none
          simp [found, none, length] at some_took
        simp [Stats.row, found, full]
  · refine ⟨_, ?_, ranks⟩
    have length := ranks.length_eq
    rw [Stats.ranks] at length ⊢
    cases found : (aggregate challenges).rankingData.lookup name with
    | none => simp [found, length] at some_took
    | some values =>
        have full : values ≠ [] := by
          intro none
          simp [found, none, length] at some_took
        simp [Stats.row, found, full]

theorem mem_allClients (challenges : List Challenge) (name : Name) :
    name ∈ (aggregate challenges).allClients ↔
      name ≠ [] ∧ ∃ ch ∈ challenges, name ∈ ch.names ∨ ch.winner = name := by
  rw [Stats.allClients, (List.mergeSort_perm _ _).mem_iff, List.mem_dedup, List.mem_append,
    ← AList.mem_keys, ← AList.mem_keys, aggregate_eq, countTable, countTable, mem_upsertAll,
    mem_upsertAll]
  simp only [appearances, winners, Challenge.names, List.mem_flatMap, List.mem_filter,
    List.mem_map, decide_eq_true_eq, id_eq]
  constructor
  · rintro (⟨player, ⟨ch, member, listed, named⟩, own⟩ | ⟨winner, ⟨⟨ch, member, won⟩, named⟩, own⟩)
    · exact ⟨own ▸ named, ch, member, .inl ⟨player, listed, own⟩⟩
    · exact ⟨own ▸ named, ch, member, .inr (won.trans own)⟩
  · rintro ⟨named, ch, member, ⟨player, listed, own⟩ | won⟩
    · exact .inl ⟨player, ⟨ch, member, listed, own ▸ named⟩, own⟩
    · exact .inr ⟨name, ⟨⟨ch, member, won⟩, named⟩, rfl⟩

theorem allClients_nodup (challenges : List Challenge) :
    (aggregate challenges).allClients.Nodup :=
  (List.mergeSort_perm _ _).nodup_iff.mpr (List.nodup_dedup _)

theorem allClients_sorted (challenges : List Challenge) :
    (aggregate challenges).allClients.Pairwise (· < ·) := by
  have sorted : (aggregate challenges).allClients.Pairwise fun a b => decide (a ≤ b) = true := by
    apply List.pairwise_mergeSort
    · intro a b c le leToo
      simp only [decide_eq_true_eq] at le leToo ⊢
      exact List.le_trans le leToo
    · intro a b
      simpa using List.le_total a b
  apply sorted.imp₂ _ (allClients_nodup challenges)
  intro a b le different
  apply List.not_le.mp
  intro ge
  exact different (List.le_antisymm (of_decide_eq_true le) ge)

/-- Every challenge with a named winner is a victory of one client. -/
theorem victories_sum (challenges : List Challenge) :
    ((aggregate challenges).table.map Row.victories).sum =
      challenges.countP fun ch => ch.winner ≠ [] := by
  have once := allClients_nodup challenges
  have count : ∀ name, (aggregate challenges).victories name =
      Multiset.count name (winners challenges) := by
    intro name
    rw [Stats.victories, aggregate_eq, countTable_lookup, eventsOf, Multiset.count,
      Multiset.coe_countP, ← List.countP_eq_length_filter]
    apply List.countP_congr
    simp [eq_comm]
  have all : ∀ name ∈ (winners challenges : Multiset Name),
      name ∈ (aggregate challenges).allClients.toFinset := by
    intro name member
    rw [List.mem_toFinset, mem_allClients]
    simp only [Multiset.mem_coe, winners, List.mem_filter, List.mem_map] at member
    obtain ⟨⟨ch, listed, own⟩, named⟩ := member
    exact ⟨of_decide_eq_true named, ch, listed, .inr own⟩
  have length : (winners challenges).length = challenges.countP fun ch => ch.winner ≠ [] := by
    rw [winners, ← List.countP_eq_length_filter, List.countP_map]
    rfl
  rw [← length, ← Multiset.coe_card, ← Multiset.sum_count_eq_card all, List.sum_toFinset _ once,
    Stats.table, List.map_map]
  apply congrArg
  apply List.map_congr_left
  intro name _
  exact count name

/-- What the page shows of a log: the named clients that took part, in order and once each, and
each challenge with a named winner as a victory of one of them. -/
structure Standings (challenges : List Challenge) (table : List Row) : Prop where
  sorted : (table.map Row.client).Pairwise (· < ·)
  clients : ∀ name, name ∈ table.map Row.client ↔ name ≠ [] ∧ ∃ ch ∈ challenges, name ∈ ch.names
  rows : ∀ row ∈ table, Standing challenges row
  victories : (table.map Row.victories).sum = challenges.countP fun ch => ch.winner ≠ []

theorem table_standings (fair : ∀ ch ∈ challenges, ch.Fair) :
    Standings challenges (aggregate challenges).table := by
  have clients : (aggregate challenges).table.map Row.client =
      (aggregate challenges).allClients := by
    rw [Stats.table, List.map_map]
    exact List.map_id _
  have present : ∀ name, name ∈ (aggregate challenges).allClients ↔
      name ≠ [] ∧ ∃ ch ∈ challenges, name ∈ ch.names := by
    intro name
    rw [mem_allClients]
    apply and_congr_right
    intro named
    constructor
    · rintro ⟨ch, member, listed | won⟩
      · exact ⟨ch, member, listed⟩
      · exact ⟨ch, member, won ▸ (fair ch member).won (won ▸ named)⟩
    · rintro ⟨ch, member, listed⟩
      exact ⟨ch, member, .inl listed⟩
  constructor
  · rw [clients]
    exact allClients_sorted challenges
  · rw [clients]
    exact present
  · intro row member
    obtain ⟨name, shown, rfl⟩ := List.mem_map.mp member
    obtain ⟨named, ch, member, listed⟩ := (present name).mp shown
    apply row_standing fair named
    apply List.ne_nil_of_mem
    exact List.mem_filter.mpr ⟨member, decide_eq_true listed⟩
  · exact victories_sum challenges

end Logs

/-! ## What the servers log -/

section Servers

open Challenge
open Finm327.Hft.Scoring (Best LogEntry logChallengeResult)

/-- The players as a server lists them. -/
def playersOf (responses : List ((_ : Name) × Int32)) : List Player :=
  responses.map fun response => (response.1, response.2.toInt)

/-- An entry of `hft/src/server.cpp`. -/
def ofResult (result : LogEntry) : Challenge :=
  ⟨result.challenge_id.toInt, result.winner, playersOf result.players⟩

/-- An entry of `hftserver2026/main.cpp` or `tools/blast_server.cpp`. -/
def ofAnswers (cid : Int32) (players : List ((_ : Name) × Int32)) (answers : KeyMap Name Int32)
    (correctAnswer : Int32) : Challenge :=
  ⟨cid.toInt, (Hft2026.winner players answers correctAnswer).getD [], playersOf players⟩

/-- A table of latencies is logged, in the order in which it is read. -/
inductive Logged : Challenge → Prop
  | responses (cid : Int32) {latencies : KeyMap Name Int32} {responses : List ((_ : Name) × Int32)}
      (order : responses.Perm latencies.entries) :
      Logged (ofResult (logChallengeResult cid responses))
  | answers (cid : Int32) {latencies : KeyMap Name Int32} {players : List ((_ : Name) × Int32)}
      (order : players.Perm latencies.entries) (answers : KeyMap Name Int32)
      (correctAnswer : Int32) : Logged (ofAnswers cid players answers correctAnswer)

theorem names_playersOf (responses : List ((_ : Name) × Int32)) :
    (playersOf responses).map Prod.fst = responses.map Sigma.fst := by
  simp [playersOf]

theorem best_listed {winner : Name} {responses : List ((_ : Name) × Int32)}
    (best : Best winner responses) (named : winner ≠ []) :
    winner ∈ responses.map Sigma.fst := by
  rcases best with ⟨none, _⟩ | ⟨latency, listed, _⟩
  · exact absurd none named
  · exact List.mem_map.mpr ⟨_, listed, rfl⟩

theorem winner_listed {players : List ((_ : Name) × Int32)} {answers : KeyMap Name Int32}
    {correctAnswer : Int32} (named : (Hft2026.winner players answers correctAnswer).getD [] ≠ []) :
    (Hft2026.winner players answers correctAnswer).getD [] ∈ players.map Sigma.fst := by
  rw [Hft2026.winner_eq] at named ⊢
  cases found : Library.Scans.scan (Hft2026.weighPlayer answers correctAnswer) players with
  | none => simp [found] at named
  | some best =>
      obtain ⟨player, latency⟩ := best
      have listed := (Library.Scans.scan_least found).member
      rw [found] at named
      by_cases unnamed : player.1 = []
      · simp [unnamed] at named
      · simpa [unnamed] using List.mem_map_of_mem (f := Sigma.fst) listed

/-- A winner is the name of a response. -/
theorem Logged.fair {ch : Challenge} (logged : Logged ch) : ch.Fair := by
  have once : ∀ {latencies : KeyMap Name Int32} {responses : List ((_ : Name) × Int32)},
      responses.Perm latencies.entries → ((playersOf responses).map Prod.fst).Nodup := by
    intro latencies responses order
    rw [names_playersOf]
    exact (order.map Sigma.fst).nodup_iff.mpr latencies.nodupKeys
  cases logged with
  | responses cid order =>
      constructor
      · exact once order
      · intro named
        rw [names, ofResult, names_playersOf]
        exact best_listed (Hft.Scoring.log_challenge_result_winner cid _) named
  | answers cid order answers correctAnswer =>
      constructor
      · exact once order
      · intro named
        rw [names, ofAnswers, names_playersOf]
        exact winner_listed named

theorem logged_standings {challenges : List Challenge} (logged : ∀ ch ∈ challenges, Logged ch) :
    Standings challenges (aggregate challenges).table :=
  table_standings fun ch member => (logged ch member).fair

/-- Two clients in a challenge of each server; the second has no correct answer. -/
def sampleChallenges : List Challenge :=
  [ofResult (logChallengeResult 1 [⟨[98], 7⟩, ⟨[97], 4⟩]),
    ofAnswers 2 [⟨[97], 4⟩, ⟨[98], 7⟩] (AList.singleton [97] 5) 6]

def sampleLatencies : KeyMap Name Int32 := ((∅ : KeyMap Name Int32).insert [98] 7).insert [97] 4

theorem logged_standings_sample :
    (sampleChallenges.countP fun ch => ch.winner ≠ []) = 1 ∧
      Standings sampleChallenges (aggregate sampleChallenges).table := by
  constructor
  · decide
  · apply logged_standings
    simp only [sampleChallenges, List.forall_mem_cons, List.not_mem_nil]
    have swapped : List.Perm [⟨[98], 7⟩, ⟨[97], 4⟩] sampleLatencies.entries := by decide
    exact ⟨.responses 1 swapped, .answers 2 (List.Perm.refl sampleLatencies.entries) _ _, by simp⟩

/-! ## The run behind the table -/

open Finm327.Library.Runs
open Finm327.Library.Windows
open Finm327.Hft.Scoring (Arrival Entry Opening Scores lastArrival unopened)
open Finm327.Hft.Scoring.Server (Run initial step)
open Finm327.Hft2026 (latencyOf)

/-- Whether a client sent something while a challenge was open. -/
def Sent (name : Name) (window : Window Opening Arrival) : Prop :=
  (lastArrival name window.messages).isSome = true

instance (name : Name) (window : Window Opening Arrival) : Decidable (Sent name window) :=
  inferInstanceAs (Decidable (_ = _))

/-- The last message of a client came after so many milliseconds. -/
def LastAfter (name : Name) (window : Window Opening Arrival) (latency : Int) : Prop :=
  ∃ arrival, lastArrival name window.messages = some arrival ∧
    (latencyOf window.round.startTime arrival.now).toInt = latency

/-- The client's last message came no later than that of any other. -/
def Leads (name : Name) (window : Window Opening Arrival) : Prop :=
  ∃ latency, LastAfter name window latency ∧
    ∀ other latencyToo, LastAfter other window latencyToo → latency ≤ latencyToo

variable {done : List (Window Opening Arrival)} {results : List LogEntry} {name : Name}

end Servers

end Finm327.Dashboard
