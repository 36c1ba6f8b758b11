import Mathlib.Data.List.Basic
import Mathlib.Logic.Function.Basic

/-!
# Doubly linked chains

Two link functions `prev` and `next` on addresses, as the fields of nodes in
memory give them. `Chain before nodes after` says that the addresses `nodes`
are linked in this order, that the first one points back to `before` and the
last one on to `after`. Chains compose, and a write to a link of a node touches
only the chains the node is on.
-/

namespace Finm327.Library.Chains

universe u

variable {Address : Type u}

def Chain (prev next : Address → Option Address) :
    Option Address → List Address → Option Address → Prop
  | _, [], _ => True
  | before, node :: rest, after =>
      prev node = before ∧ next node = rest.head?.or after ∧ Chain prev next (some node) rest after

variable {prev next prevAfter nextAfter : Address → Option Address}
  {before after : Option Address} {front back nodes : List Address} {node : Address}

/-- A chain is two chains that point at each other. -/
theorem chain_append :
    Chain prev next before (front ++ back) after ↔
      Chain prev next before front (back.head?.or after) ∧
        Chain prev next (front.getLast?.or before) back after := by
  induction front generalizing before with
  | nil => simp [Chain]
  | cons first rest ih =>
      have last : (first :: rest).getLast?.or before = rest.getLast?.or (some first) := by
        rw [List.getLast?_cons]
        cases rest.getLast? <;> rfl
      have head : (rest ++ back).head?.or after = rest.head?.or (back.head?.or after) := by
        rw [List.head?_append, Option.or_assoc]
      simp only [List.cons_append, Chain, ih, last, head]
      tauto

theorem chain_congr (chain : Chain prev next before nodes after)
    (samePrev : ∀ node ∈ nodes, prevAfter node = prev node)
    (sameNext : ∀ node ∈ nodes, nextAfter node = next node) :
    Chain prevAfter nextAfter before nodes after := by
  induction nodes generalizing before with
  | nil => trivial
  | cons first rest ih =>
      obtain ⟨back, forth, chained⟩ := chain
      refine ⟨?_, ?_, ?_⟩
      · rw [samePrev first List.mem_cons_self, back]
      · rw [sameNext first List.mem_cons_self, forth]
      · apply ih chained
        · exact fun node member => samePrev node (List.mem_cons_of_mem _ member)
        · exact fun node member => sameNext node (List.mem_cons_of_mem _ member)

theorem chain_reend {target : Option Address} (chain : Chain prev next before nodes after)
    (nodup : nodes.Nodup) (samePrev : ∀ node ∈ nodes, prevAfter node = prev node)
    (sameNext : ∀ node ∈ nodes, nodes.getLast? ≠ some node → nextAfter node = next node)
    (hit : ∀ node, nodes.getLast? = some node → nextAfter node = target) :
    Chain prevAfter nextAfter before nodes target := by
  rcases List.eq_nil_or_concat nodes with empty | ⟨init, last, split⟩
  · rw [empty]
    trivial
  · rw [List.concat_eq_append] at split
    subst split
    rw [List.getLast?_concat] at sameNext hit
    obtain ⟨initChain, lastChain⟩ := chain_append.mp chain
    have apart : ∀ node ∈ init, node ≠ last :=
      fun node member => (List.nodup_append.mp nodup).2.2 node member last
        (List.mem_singleton_self last)
    apply chain_append.mpr
    constructor
    · apply chain_congr initChain
      · exact fun node member => samePrev node (List.mem_append_left _ member)
      · intro node member
        apply sameNext node (List.mem_append_left _ member)
        rw [ne_eq, Option.some.injEq]
        exact (apart node member).symm
    · refine ⟨?_, hit last rfl, trivial⟩
      rw [samePrev last (List.mem_append_right _ (List.mem_singleton_self last)), lastChain.1]

theorem chain_restart {target : Option Address} (chain : Chain prev next before nodes after)
    (nodup : nodes.Nodup) (sameNext : ∀ node ∈ nodes, nextAfter node = next node)
    (samePrev : ∀ node ∈ nodes, nodes.head? ≠ some node → prevAfter node = prev node)
    (hit : ∀ node, nodes.head? = some node → prevAfter node = target) :
    Chain prevAfter nextAfter target nodes after := by
  cases nodes with
  | nil => trivial
  | cons first rest =>
      obtain ⟨_, forth, chained⟩ := chain
      have apart : ∀ node ∈ rest, node ≠ first :=
        fun node member same => (List.nodup_cons.mp nodup).1 (same ▸ member)
      refine ⟨hit first rfl, ?_, ?_⟩
      · rw [sameNext first List.mem_cons_self, forth]
      · apply chain_congr chained
        · intro node member
          apply samePrev node (List.mem_cons_of_mem _ member)
          rw [List.head?_cons, ne_eq, Option.some.injEq]
          exact (apart node member).symm
        · exact fun node member => sameNext node (List.mem_cons_of_mem _ member)

theorem chain_push_back (chain : Chain prev next none nodes none) (nodup : nodes.Nodup)
    (back : prevAfter node = nodes.getLast?) (forth : nextAfter node = none)
    (samePrev : ∀ other ∈ nodes, prevAfter other = prev other)
    (sameNext : ∀ other ∈ nodes, nodes.getLast? ≠ some other → nextAfter other = next other)
    (hit : ∀ tail, nodes.getLast? = some tail → nextAfter tail = some node) :
    Chain prevAfter nextAfter none (nodes ++ [node]) none := by
  apply chain_append.mpr
  refine ⟨chain_reend chain nodup samePrev sameNext hit, ?_, forth, trivial⟩
  rw [back, Option.or_none]

theorem chain_links (chain : Chain prev next none (front ++ node :: back) none) :
    prev node = front.getLast? ∧ next node = back.head? := by
  obtain ⟨_, links, forth, _⟩ := chain_append.mp chain
  rw [Option.or_none] at links forth
  exact ⟨links, forth⟩

/-- On a chain the two links are inverse. -/
theorem chain_next_iff {other : Address} (chain : Chain prev next none nodes none) :
    node ∈ nodes ∧ next node = some other ↔ other ∈ nodes ∧ prev other = some node := by
  constructor
  · rintro ⟨member, forth⟩
    obtain ⟨front, back, split⟩ := List.append_of_mem member
    subst split
    rw [(chain_links chain).2] at forth
    obtain ⟨rest, split⟩ := List.head?_eq_some_iff.mp forth
    subst split
    rw [List.append_cons] at chain ⊢
    exact ⟨List.mem_append_right _ List.mem_cons_self,
      (chain_links chain).1.trans List.getLast?_concat⟩
  · rintro ⟨member, links⟩
    obtain ⟨front, back, split⟩ := List.append_of_mem member
    subst split
    rw [(chain_links chain).1] at links
    obtain ⟨init, split⟩ := List.getLast?_eq_some_iff.mp links
    subst split
    rw [← List.append_cons] at chain ⊢
    exact ⟨List.mem_append_right _ List.mem_cons_self, (chain_links chain).2⟩

/-- Unlinking a node: its neighbours point past it. -/
theorem chain_unlink (chain : Chain prev next none (front ++ node :: back) none)
    (nodup : (front ++ node :: back).Nodup)
    (sameNext : ∀ other ∈ front ++ back, prev node ≠ some other → nextAfter other = next other)
    (hitNext : ∀ other, prev node = some other → nextAfter other = next node)
    (samePrev : ∀ other ∈ front ++ back, next node ≠ some other → prevAfter other = prev other)
    (hitPrev : ∀ other, next node = some other → prevAfter other = prev node) :
    Chain prevAfter nextAfter none (front ++ back) none := by
  obtain ⟨links, forth⟩ := chain_links chain
  obtain ⟨frontChain, _, _, backChain⟩ := chain_append.mp chain
  obtain ⟨frontNodup, nodeBackNodup, apart⟩ := List.nodup_append.mp nodup
  have backNodup := (List.nodup_cons.mp nodeBackNodup).2
  rw [links] at sameNext hitNext hitPrev
  rw [forth] at samePrev hitPrev hitNext
  apply chain_append.mpr
  rw [Option.or_none, Option.or_none]
  constructor
  · apply chain_reend frontChain frontNodup ?_ ?_ hitNext
    · intro other member
      apply samePrev other (List.mem_append_left _ member)
      intro first
      have inBack := List.mem_of_head? first
      exact apart other member other (List.mem_cons_of_mem _ inBack) rfl
    · exact fun other member => sameNext other (List.mem_append_left _ member)
  · apply chain_restart backChain backNodup ?_ ?_ hitPrev
    · intro other member
      apply sameNext other (List.mem_append_right _ member)
      intro last
      have inFront := List.mem_of_getLast? last
      exact apart other inFront other (List.mem_cons_of_mem _ member) rfl
    · exact fun other member => samePrev other (List.mem_append_right _ member)

section Threaded

/-- A list threaded through memory cells that may hold something else: `link` is the pointer in
a cell, if it holds one. The list starts at `head` and ends with a null pointer. -/
def Threaded (link : Address → Option (Option Address)) : Option Address → List Address → Prop
  | head, [] => head = none
  | head, node :: rest => head = some node ∧ ∃ next, link node = some next ∧ Threaded link next rest

variable {link linkAfter : Address → Option (Option Address)} {head : Option Address}

theorem threaded_congr (threaded : Threaded link head nodes)
    (same : ∀ node ∈ nodes, linkAfter node = link node) : Threaded linkAfter head nodes := by
  induction nodes generalizing head with
  | nil => exact threaded
  | cons first rest ih =>
      obtain ⟨start, next, linked, later⟩ := threaded
      refine ⟨start, next, ?_, ih later ?_⟩
      · rw [same first List.mem_cons_self, linked]
      · exact fun node member => same node (List.mem_cons_of_mem first member)

theorem threaded_cons (threaded : Threaded link head nodes) (own : linkAfter node = some head)
    (same : ∀ other ∈ nodes, linkAfter other = link other) :
    Threaded linkAfter (some node) (node :: nodes) :=
  ⟨rfl, head, own, threaded_congr threaded same⟩

end Threaded

end Finm327.Library.Chains
