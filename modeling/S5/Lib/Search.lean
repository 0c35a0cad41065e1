import Mathlib.Data.Finset.Card
import Mathlib.Data.List.Basic

/-!
# Searching what a store leads to

A node is loaded by an id and a key, and names other ids with keys. A search goes through the nodes of
one queue and tries the names of another, which it empties before it takes the next node. It tries an
id once, under the key that it meets first.

* `mem_order_iff`: where all keys that an id is named with load the same, the search visits what can
  be found and nothing else.
* `search_eq_foldl`: what a search gathers, by the nodes it visits.
-/

namespace Search

/-- What a search goes through; only finitely many ids load anything. -/
structure Graph (κ μ ν : Type) where
  load : κ → μ → Option ν
  names : ν → List (κ × μ)
  ids : Finset κ
  mem_ids : ∀ {id key n}, load id key = some n → id ∈ ids

variable {κ μ ν α : Type} [DecidableEq κ] (g : Graph κ μ ν)

/-- Tries the names of a queue; what is loaded joins the nodes. -/
def drain : List (κ × μ) → Finset κ → List ν → Finset κ × List ν
  | [], visited, nodes => (visited, nodes)
  | (id, key) :: rest, visited, nodes =>
    if id ∈ visited then drain rest visited nodes
    else drain rest (insert id visited) (nodes ++ (g.load id key).toList)

/-- How many ids may still load a node. -/
def unvisited (visited : Finset κ) : Nat := (g.ids \ visited).card

/-- Every node that is loaded uses up an id. -/
theorem length_drain_le (queue : List (κ × μ)) (visited : Finset κ) (nodes : List ν) :
    (drain g queue visited nodes).2.length + unvisited g (drain g queue visited nodes).1 ≤
      nodes.length + unvisited g visited := by
  induction queue generalizing visited nodes with
  | nil => exact Nat.le_refl _
  | cons name rest ih =>
    obtain ⟨id, key⟩ := name
    unfold drain
    split
    · exact ih visited nodes
    · rename_i hid
      refine (ih _ _).trans ?_
      have hsub : unvisited g (insert id visited) ≤ unvisited g visited :=
        Finset.card_le_card (Finset.sdiff_subset_sdiff (Finset.Subset.refl _) (Finset.subset_insert _ _))
      cases hload : g.load id key with
      | none => simpa using hsub
      | some n =>
        have hlt : unvisited g (insert id visited) < unvisited g visited := by
          refine Finset.card_lt_card ⟨Finset.sdiff_subset_sdiff (Finset.Subset.refl _)
            (Finset.subset_insert _ _), fun hle => ?_⟩
          have hmem := hle (Finset.mem_sdiff.2 ⟨g.mem_ids hload, hid⟩)
          exact (Finset.mem_sdiff.1 hmem).2 (Finset.mem_insert_self id visited)
        simp only [Option.toList_some, List.length_append, List.length_singleton]
        omega

/-- Visits the nodes of a queue and all that the names lead to. -/
def search (visit : α → ν → α) (nodes : List ν) (queue : List (κ × μ)) (visited : Finset κ)
    (acc : α) : α :=
  match nodes with
  | [] => acc
  | n :: nodes =>
    let drained := drain g (queue ++ g.names n) visited nodes
    search visit drained.2 [] drained.1 (visit acc n)
termination_by nodes.length + unvisited g visited
decreasing_by
  have hle := length_drain_le g (queue ++ g.names n) visited nodes
  simp only [List.length_cons]
  omega

/-- The nodes in the order in which they are visited. -/
def order (nodes : List ν) (queue : List (κ × μ)) (visited : Finset κ) : List ν :=
  match nodes with
  | [] => []
  | n :: nodes =>
    let drained := drain g (queue ++ g.names n) visited nodes
    n :: order drained.2 [] drained.1
termination_by nodes.length + unvisited g visited
decreasing_by
  have hle := length_drain_le g (queue ++ g.names n) visited nodes
  simp only [List.length_cons]
  omega

theorem search_eq_foldl (visit : α → ν → α) (nodes : List ν) (queue : List (κ × μ))
    (visited : Finset κ) (acc : α) :
    search g visit nodes queue visited acc = (order g nodes queue visited).foldl visit acc := by
  induction nodes, queue, visited using order.induct (g := g) generalizing acc with
  | case1 queue visited => simp [search, order]
  | case2 queue visited n nodes drained ih =>
    rw [search, order, List.foldl_cons]
    exact ih (visit acc n)

/-! ## What is found -/

/-- The nodes that can be found from a queue of nodes and a queue of names. -/
inductive Found (g : Graph κ μ ν) (nodes : List ν) (queue : List (κ × μ)) : ν → Prop where
  | root {n : ν} (h : n ∈ nodes) : Found g nodes queue n
  | queued {id : κ} {key : μ} {n : ν} (h : (id, key) ∈ queue) (hl : g.load id key = some n) :
      Found g nodes queue n
  | named {m n : ν} {id : κ} {key : μ} (hm : Found g nodes queue m) (h : (id, key) ∈ g.names m)
      (hl : g.load id key = some n) : Found g nodes queue n

/-- The names that a search can come by. -/
def Named (nodes : List ν) (queue : List (κ × μ)) (id : κ) (key : μ) : Prop :=
  (id, key) ∈ queue ∨ ∃ m, Found g nodes queue m ∧ (id, key) ∈ g.names m

/-- All keys that an id is named with load the same. -/
def Agree (nodes : List ν) (queue : List (κ × μ)) : Prop :=
  ∀ id key key', Named g nodes queue id key → Named g nodes queue id key' →
    g.load id key = g.load id key'

variable {g} {nodes₀ nodes : List ν} {queue₀ queue : List (κ × μ)} {visited : Finset κ}

omit [DecidableEq κ] in
theorem Named.found {id : κ} {key : μ} {n : ν} (h : Named g nodes₀ queue₀ id key)
    (hl : g.load id key = some n) : Found g nodes₀ queue₀ n := by
  rcases h with h | ⟨m, hm, h⟩
  · exact .queued h hl
  · exact .named hm h hl

/-- What a drain leaves. -/
structure Drained (g : Graph κ μ ν) (queue : List (κ × μ)) (visited : Finset κ) (nodes : List ν)
    (visited' : Finset κ) (nodes' : List ν) : Prop where
  grows : visited ⊆ visited'
  tried : ∀ name ∈ queue, name.1 ∈ visited'
  keeps : ∀ n ∈ nodes, n ∈ nodes'
  loaded : ∀ id ∈ visited', id ∈ visited ∨ ∃ key, (id, key) ∈ queue ∧
    ∀ n, g.load id key = some n → n ∈ nodes'
  new : ∀ n ∈ nodes', n ∈ nodes ∨ ∃ id key, (id, key) ∈ queue ∧ g.load id key = some n

theorem drained (g : Graph κ μ ν) (queue : List (κ × μ)) (visited : Finset κ) (nodes : List ν) :
    Drained g queue visited nodes (drain g queue visited nodes).1 (drain g queue visited nodes).2 := by
  induction queue generalizing visited nodes with
  | nil =>
    exact ⟨Finset.Subset.refl _, fun _ h => absurd h List.not_mem_nil, fun _ h => h,
      fun _ h => .inl h, fun _ h => .inl h⟩
  | cons name rest ih =>
    obtain ⟨id, key⟩ := name
    unfold drain
    by_cases hid : id ∈ visited
    · rw [if_pos hid]
      obtain ⟨hgrows, htried, hkeeps, hloaded, hnew⟩ := ih visited nodes
      refine ⟨hgrows, fun x hx => ?_, hkeeps, fun i hi => ?_, fun n hn => ?_⟩
      · rcases List.mem_cons.1 hx with rfl | hx
        · exact hgrows hid
        · exact htried x hx
      · rcases hloaded i hi with hi | ⟨k, hk, hl⟩
        · exact .inl hi
        · exact .inr ⟨k, List.mem_cons_of_mem _ hk, hl⟩
      · rcases hnew n hn with hn | ⟨i, k, hk, hl⟩
        · exact .inl hn
        · exact .inr ⟨i, k, List.mem_cons_of_mem _ hk, hl⟩
    · rw [if_neg hid]
      obtain ⟨hgrows, htried, hkeeps, hloaded, hnew⟩ :=
        ih (insert id visited) (nodes ++ (g.load id key).toList)
      refine ⟨(Finset.subset_insert id visited).trans hgrows, fun x hx => ?_,
        fun n hn => hkeeps n (List.mem_append_left _ hn), fun i hi => ?_, fun n hn => ?_⟩
      · rcases List.mem_cons.1 hx with rfl | hx
        · exact hgrows (Finset.mem_insert_self _ _)
        · exact htried x hx
      · rcases hloaded i hi with hi | ⟨k, hk, hl⟩
        · rcases Finset.mem_insert.1 hi with rfl | hi
          · refine .inr ⟨key, List.mem_cons_self, fun n hn => hkeeps n ?_⟩
            exact List.mem_append_right _ (by simp [hn])
          · exact .inl hi
        · exact .inr ⟨k, List.mem_cons_of_mem _ hk, hl⟩
      · rcases hnew n hn with hn | ⟨i, k, hk, hl⟩
        · rcases List.mem_append.1 hn with hn | hn
          · exact .inl hn
          · exact .inr ⟨id, key, List.mem_cons_self, by simpa using hn⟩
        · exact .inr ⟨i, k, List.mem_cons_of_mem _ hk, hl⟩

/-- A search under way, when the nodes of `done` have been visited. -/
structure Underway (g : Graph κ μ ν) (nodes₀ : List ν) (queue₀ : List (κ × μ)) (done nodes : List ν)
    (queue : List (κ × μ)) (visited : Finset κ) : Prop where
  found : ∀ n, n ∈ done ∨ n ∈ nodes → Found g nodes₀ queue₀ n
  named : ∀ id key, (id, key) ∈ queue → Named g nodes₀ queue₀ id key
  roots : ∀ n ∈ nodes₀, n ∈ done ∨ n ∈ nodes
  queued : ∀ name ∈ queue₀, name.1 ∈ visited ∨ name ∈ queue
  children : ∀ n ∈ done, ∀ name ∈ g.names n, name.1 ∈ visited
  loaded : ∀ id ∈ visited, ∃ key, Named g nodes₀ queue₀ id key ∧
    ∀ n, g.load id key = some n → n ∈ done ∨ n ∈ nodes

omit [DecidableEq κ] in
theorem Underway.start (g : Graph κ μ ν) (nodes : List ν) (queue : List (κ × μ)) :
    Underway g nodes queue [] nodes queue ∅ where
  found _ hn := .root (hn.resolve_left List.not_mem_nil)
  named _ _ h := .inl h
  roots _ h := .inr h
  queued _ h := .inr h
  children _ h := absurd h List.not_mem_nil
  loaded _ h := absurd h (Finset.notMem_empty _)

/-- One node is visited. -/
theorem Underway.turn {done : List ν} {n : ν}
    (h : Underway g nodes₀ queue₀ done (n :: nodes) queue visited) :
    Underway g nodes₀ queue₀ (done ++ [n]) (drain g (queue ++ g.names n) visited nodes).2 []
      (drain g (queue ++ g.names n) visited nodes).1 := by
  have hd := drained g (queue ++ g.names n) visited nodes
  generalize drain g (queue ++ g.names n) visited nodes = res at hd ⊢
  obtain ⟨visited', nodes'⟩ := res
  dsimp only at hd ⊢
  have hfound : Found g nodes₀ queue₀ n := h.found n (.inr List.mem_cons_self)
  have hnamed : ∀ id key, (id, key) ∈ queue ++ g.names n → Named g nodes₀ queue₀ id key := by
    intro id key hk
    rcases List.mem_append.1 hk with hk | hk
    · exact h.named id key hk
    · exact .inr ⟨n, hfound, hk⟩
  have hstays : ∀ m, m ∈ done ∨ m ∈ n :: nodes → m ∈ done ++ [n] ∨ m ∈ nodes' := by
    rintro m (hm | hm)
    · exact .inl (List.mem_append_left _ hm)
    · rcases List.mem_cons.1 hm with rfl | hm
      · exact .inl (by simp)
      · exact .inr (hd.keeps m hm)
  refine ⟨?_, fun _ _ hk => absurd hk List.not_mem_nil, fun m hm => hstays m (h.roots m hm),
    fun name hname => .inl ?_, fun m hm name hname => ?_, fun id hid => ?_⟩
  · rintro m (hm | hm)
    · rcases List.mem_append.1 hm with hm | hm
      · exact h.found m (.inl hm)
      · obtain rfl := List.mem_singleton.1 hm
        exact hfound
    · rcases hd.new m hm with hm | ⟨id, key, hk, hl⟩
      · exact h.found m (.inr (List.mem_cons_of_mem _ hm))
      · exact (hnamed id key hk).found hl
  · rcases h.queued name hname with hv | hq
    · exact hd.grows hv
    · exact hd.tried name (List.mem_append_left _ hq)
  · rcases List.mem_append.1 hm with hm | hm
    · exact hd.grows (h.children m hm name hname)
    · obtain rfl := List.mem_singleton.1 hm
      exact hd.tried name (List.mem_append_right _ hname)
  · rcases hd.loaded id hid with hid | ⟨key, hk, hl⟩
    · obtain ⟨key, hn, hl⟩ := h.loaded id hid
      exact ⟨key, hn, fun m hm => hstays m (hl m hm)⟩
    · exact ⟨key, hnamed id key hk, fun m hm => .inr (hl m hm)⟩

theorem Underway.finish {done : List ν} (hstart : nodes = [] → queue = [])
    (h : Underway g nodes₀ queue₀ done nodes queue visited) :
    ∃ visited', Underway g nodes₀ queue₀ (done ++ order g nodes queue visited) [] [] visited' := by
  induction nodes, queue, visited using order.induct (g := g) generalizing done with
  | case1 queue visited =>
    obtain rfl := hstart rfl
    rw [order, List.append_nil]
    exact ⟨visited, h⟩
  | case2 queue visited n nodes drained =>
    rename_i ih
    obtain ⟨visited', hend⟩ := ih (fun _ => rfl) h.turn
    rw [order]
    refine ⟨visited', ?_⟩
    simpa using hend

/-- **A search is exact** where the keys that an id is named with agree. -/
theorem mem_order_iff (hnodes : nodes ≠ []) (hagree : Agree g nodes queue) {n : ν} :
    n ∈ order g nodes queue ∅ ↔ Found g nodes queue n := by
  obtain ⟨visited, h⟩ := (Underway.start g nodes queue).finish (fun he => absurd he hnodes)
  rw [List.nil_append] at h
  have hload : ∀ id key m, Named g nodes queue id key → id ∈ visited → g.load id key = some m →
      m ∈ order g nodes queue ∅ := by
    intro id key m hn hid hl
    obtain ⟨key', hn', hl'⟩ := h.loaded id hid
    rw [hagree id key key' hn hn'] at hl
    exact (hl' m hl).resolve_right List.not_mem_nil
  constructor
  · exact fun hn => h.found n (.inl hn)
  · intro hn
    induction hn with
    | root hm => exact (h.roots _ hm).resolve_right List.not_mem_nil
    | queued hk hl =>
      exact hload _ _ _ (.inl hk) ((h.queued _ hk).resolve_right List.not_mem_nil) hl
    | named hm hk hl ih => exact hload _ _ _ (.inr ⟨_, hm, hk⟩) (h.children _ ih _ hk) hl

end Search
