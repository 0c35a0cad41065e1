import S5.Fs.Exports
import S5.Fs.FileOps
import S5.Fs.Segments
import S5.Fs.Proof.ShardMerge

/-!
# Exports

`exportMergedSnapshot` answers exactly if all shards open (`ShardsOpen`), and then with the flat view
(`exportMergedSnapshot_eq_ok`). `exportMergedSnapshotAt` answers for the directory that the segments of
its path lead to, one child directory after the other (`exportMergedSnapshotAt_iff`), and a lookup finds
a file there or under a key of several segments on the way (`reaches_some_iff`).
-/

open Std

namespace Fs

namespace Actor

variable {β : Type} {env : Env β} {w : World β} {regs : RegistryDirHandles}

/-! ## Merged snapshots -/

theorem foldlM_ok_mono {α γ : Type} {f g : γ → α → Except String γ}
    (h : ∀ b x c, f b x = .ok c → g b x = .ok c) (l : List α) {b c : γ}
    (hf : l.foldlM f b = .ok c) : l.foldlM g b = .ok c := by
  induction l generalizing b with
  | nil => exact hf
  | cons x l ih =>
    rw [List.foldlM_cons] at hf ⊢
    cases hx : f b x with
    | error e =>
      rw [hx] at hf
      cases hf
    | ok b' =>
      rw [hx] at hf
      rw [h b x b' hx]
      exact ih hf

variable (env w) in
/-- One shard's part of a merged snapshot. -/
def addShard (fuel : Nat) (a : Actor) (merged : DirV1) (index : UInt8) : Except String DirV1 := do
  let child ← openDirShard env w a index
  let part ← exportMergedSnapshot env w fuel child
  return addEntries merged part

theorem addShard_eq_ok {fuel : Nat} {a : Actor} {merged merged' : DirV1} {index : UInt8} :
    addShard env w fuel a merged index = .ok merged' ↔
      ∃ child part, openDirShard env w a index = .ok child ∧
        exportMergedSnapshot env w fuel child = .ok part ∧ merged' = addEntries merged part := by
  unfold addShard
  cases openDirShard env w a index with
  | error e => simp [bind, Except.bind]
  | ok child =>
    cases hp : exportMergedSnapshot env w fuel child with
    | error e => simp [bind, Except.bind, hp]
    | ok part => simp [bind, Except.bind, pure, Except.pure, hp, eq_comm]

/-- The snapshot as a fold over the shards. -/
theorem exportMergedSnapshot_eq_ok {fuel : Nat} {a : Actor} {d : DirV1} :
    exportMergedSnapshot env w (fuel + 1) a = .ok d ↔
      ∃ merged, a.indices.foldlM (addShard env w fuel a) a.state = .ok merged ∧
        d = { merged with header.shardLevel := none, header.shards := none } := by
  have hfold : exportMergedSnapshot env w (fuel + 1) a =
      (a.indices.foldlM (addShard env w fuel a) a.state).map fun merged =>
        { merged with header.shardLevel := none, header.shards := none } := rfl
  rw [hfold]
  cases a.indices.foldlM (addShard env w fuel a) a.state with
  | error e => simp [Except.map]
  | ok merged => simp [Except.map, eq_comm]

/-- One hop more does not change a snapshot. -/
theorem exportMergedSnapshot_succ {fuel : Nat} {a : Actor} {d : DirV1}
    (h : exportMergedSnapshot env w fuel a = .ok d) :
    exportMergedSnapshot env w (fuel + 1) a = .ok d := by
  induction fuel generalizing a d with
  | zero => cases h
  | succ fuel ih =>
    obtain ⟨merged, hfold, rfl⟩ := exportMergedSnapshot_eq_ok.1 h
    refine exportMergedSnapshot_eq_ok.2 ⟨merged, foldlM_ok_mono (fun b i c hi => ?_) _ hfold, rfl⟩
    obtain ⟨child, part, ho, hp, rfl⟩ := addShard_eq_ok.1 hi
    exact addShard_eq_ok.2 ⟨child, part, ho, ih hp, rfl⟩

theorem exportMergedSnapshot_le {fuel fuel' : Nat} {a : Actor} {d : DirV1} (hle : fuel ≤ fuel')
    (h : exportMergedSnapshot env w fuel a = .ok d) : exportMergedSnapshot env w fuel' a = .ok d := by
  induction fuel', hle using Nat.le_induction with
  | base => exact h
  | succ n _ ih => exact exportMergedSnapshot_succ ih

/-! ## What a directory shows -/

variable (env w) in
/-- All shards of a directory can be opened, to a depth below `fuel`. -/
def ShardsOpen : Nat → Actor → Prop
  | 0, _ => False
  | fuel + 1, a => ∀ i ∈ a.indices, ∃ child, openDirShard env w a i = .ok child ∧ ShardsOpen fuel child

variable (env w) in
/-- A directory all of whose shards can be opened. -/
def Loadable (a : Actor) : Prop := ∃ fuel, ShardsOpen env w fuel a

variable (env w) in
/-- A directory all of whose shards can be opened holds, with them, the entry `e` under a name. The
entries of the shards stand in front of its own. -/
def Lists (a : Actor) (n : String) (e : Entry) : Prop :=
  ∃ fuel, ShardsOpen env w fuel a ∧ flatEntry env w fuel a n = e

theorem Lists.loadable {a : Actor} {n : String} {e : Entry} (h : Lists env w a n e) :
    Loadable env w a := h.imp fun _ hf => hf.1

theorem Loadable.lists {a : Actor} (h : Loadable env w a) (n : String) : ∃ e, Lists env w a n e := by
  obtain ⟨fuel, h⟩ := h
  exact ⟨_, fuel, h, rfl⟩

theorem ShardsOpen.succ {fuel : Nat} {a : Actor} (h : ShardsOpen env w fuel a) :
    ShardsOpen env w (fuel + 1) a ∧
      ∀ n, flatEntry env w (fuel + 1) a n = flatEntry env w fuel a n := by
  induction fuel generalizing a with
  | zero => exact h.elim
  | succ fuel ih =>
    have hch : ∀ i ∈ a.indices, ∃ child, openDirShard env w a i = .ok child ∧
        ShardsOpen env w (fuel + 1) child ∧
        ∀ n, flatEntry env w (fuel + 1) child n = flatEntry env w fuel child n := by
      intro i hi
      obtain ⟨child, ho, hc⟩ := h i hi
      exact ⟨child, ho, ih hc⟩
    refine ⟨fun i hi => ?_, fun n => ?_⟩
    · obtain ⟨child, ho, hc, -⟩ := hch i hi
      exact ⟨child, ho, hc⟩
    · rw [flatEntry, flatEntry]
      unfold overShards
      refine List.foldl_ext _ _ _ fun e i hi => ?_
      obtain ⟨child, ho, -, hn⟩ := hch i hi
      simp only [ho, hn]

theorem ShardsOpen.le {fuel fuel' : Nat} {a : Actor} (hle : fuel ≤ fuel')
    (h : ShardsOpen env w fuel a) : ShardsOpen env w fuel' a ∧
      ∀ n, flatEntry env w fuel' a n = flatEntry env w fuel a n := by
  induction fuel', hle using Nat.le_induction with
  | base => exact ⟨h, fun _ => rfl⟩
  | succ k _ ih => exact ⟨ih.1.succ.1, fun n => (ih.1.succ.2 n).trans (ih.2 n)⟩

theorem Lists.unique {a : Actor} {n : String} {e e' : Entry} (h : Lists env w a n e)
    (h' : Lists env w a n e') : e = e' := by
  obtain ⟨fuel, ho, rfl⟩ := h
  obtain ⟨fuel', ho', rfl⟩ := h'
  have h1 := (ho.le (Nat.le_max_left fuel fuel')).2 n
  have h2 := (ho'.le (Nat.le_max_right fuel fuel')).2 n
  rw [← h1, ← h2]

variable (env w) in
/-- What one shard shows under a name. -/
def shardEntry (fuel : Nat) (a : Actor) (n : String) (i : UInt8) : Entry :=
  (openDirShard env w a i).toOption.elim (none, none) fun child => flatEntry env w fuel child n

theorem shardEntry_ok {fuel : Nat} {a child : Actor} {i : UInt8}
    (ho : openDirShard env w a i = .ok child) (n : String) :
    shardEntry env w fuel a n i = flatEntry env w fuel child n := by
  rw [shardEntry, ho]
  rfl

/-- A directory whose shards open has a snapshot, with what it shows. -/
theorem ShardsOpen.export {fuel : Nat} {a : Actor} (h : ShardsOpen env w fuel a) :
    ∃ d, exportMergedSnapshot env w fuel a = .ok d ∧ ∀ n, d.entry n = flatEntry env w fuel a n := by
  induction fuel generalizing a with
  | zero => exact h.elim
  | succ fuel ih =>
    have hch : ∀ i ∈ a.indices, ∃ child part, openDirShard env w a i = .ok child ∧
        exportMergedSnapshot env w fuel child = .ok part ∧
        ∀ n, part.entry n = shardEntry env w fuel a n i := by
      intro i hi
      obtain ⟨child, ho, hc⟩ := h i hi
      obtain ⟨part, hp, he⟩ := ih hc
      exact ⟨child, part, ho, hp, fun n => (he n).trans (shardEntry_ok ho n).symm⟩
    obtain ⟨d, hd, he⟩ := export_of_children hch
    refine ⟨d, hd, fun n => ?_⟩
    rw [he n, flatEntry]
    refine (overShards_eq fun i hi => ?_).symm
    obtain ⟨child, ho, -⟩ := h i hi
    exact ⟨child, ho, (shardEntry_ok ho n).symm⟩

/-- A directory that has a snapshot has open shards. -/
theorem shardsOpen_of_export {fuel : Nat} {a : Actor} {d : DirV1}
    (h : exportMergedSnapshot env w fuel a = .ok d) : ShardsOpen env w fuel a := by
  induction fuel generalizing a d with
  | zero => cases h
  | succ fuel ih =>
    obtain ⟨merged, hfold, -⟩ := exportMergedSnapshot_eq_ok.1 h
    have hall : ∀ (is : List UInt8) (b : DirV1), is.foldlM (addShard env w fuel a) b = .ok merged →
        ∀ i ∈ is, ∃ child, openDirShard env w a i = .ok child ∧ ShardsOpen env w fuel child := by
      intro is
      induction is with
      | nil => exact fun b _ i hi => absurd hi List.not_mem_nil
      | cons j is ihl =>
        intro b hb i hi
        rw [List.foldlM_cons] at hb
        cases hadd : addShard env w fuel a b j with
        | error e =>
          rw [hadd] at hb
          cases hb
        | ok b' =>
          rw [hadd] at hb
          rcases List.mem_cons.1 hi with rfl | hi
          · obtain ⟨child, part, ho, hp, -⟩ := addShard_eq_ok.1 hadd
            exact ⟨child, ho, ih hp⟩
          · exact ihl b' hb i hi
    exact hall a.indices a.state hfold

/-- **A merged snapshot shows what the directory lists.** -/
theorem exportMergedSnapshot_lists {fuel : Nat} {a : Actor} {d : DirV1}
    (h : exportMergedSnapshot env w fuel a = .ok d) (n : String) : Lists env w a n (d.entry n) := by
  have hopen := shardsOpen_of_export h
  obtain ⟨d', hd', he⟩ := hopen.export
  obtain rfl := Except.ok.inj (h.symm.trans hd')
  exact ⟨fuel, hopen, (he n).symm⟩

theorem Loadable.export {a : Actor} (h : Loadable env w a) :
    ∃ fuel d, exportMergedSnapshot env w fuel a = .ok d := by
  obtain ⟨fuel, h⟩ := h
  obtain ⟨d, hd, -⟩ := h.export
  exact ⟨fuel, d, hd⟩

/-- A directory shows a child directory if it or one of its shards holds one. -/
theorem foldl_over_dir {g : UInt8 → Entry} (is : List UInt8) {e : Entry} :
    (is.foldl (fun e i => e.over (g i)) e).1.isSome ↔ e.1.isSome ∨ ∃ i ∈ is, (g i).1.isSome := by
  induction is generalizing e with
  | nil => simp
  | cons i is ih =>
    rw [List.foldl_cons, ih]
    simp only [Entry.over, Option.isSome_or, Bool.or_eq_true, List.mem_cons, exists_eq_or_imp]
    tauto

theorem ShardsOpen.flatEntry_dir {fuel : Nat} {a : Actor} (h : ShardsOpen env w (fuel + 1) a)
    (n : String) :
    (flatEntry env w (fuel + 1) a n).1.isSome ↔
      (a.state.entry n).1.isSome ∨ ∃ i ∈ a.indices, ∃ child, openDirShard env w a i = .ok child ∧
        (flatEntry env w fuel child n).1.isSome := by
  have hfold : flatEntry env w (fuel + 1) a n =
      a.indices.foldl (fun e i => e.over (shardEntry env w fuel a n i)) (a.state.entry n) := by
    rw [flatEntry]
    refine overShards_eq fun i hi => ?_
    obtain ⟨child, ho, -⟩ := h i hi
    exact ⟨child, ho, (shardEntry_ok ho n).symm⟩
  rw [hfold, foldl_over_dir]
  refine or_congr_right (exists_congr fun i => and_congr_right fun hi => ?_)
  obtain ⟨child, ho, -⟩ := h i hi
  simp [ho, shardEntry_ok ho]

/-! ## Homes -/

/-- Where one hop leads, and where the buckets of the first segment do. -/
theorem route_home (env : Env β) (w : World β) (a : Actor) {path n rest : String}
    (hsplit : splitPath path = (n, rest)) :
    (∃ e, route env a.state path = .error e ∧ ∀ p b, ¬ Home env w n a p b) ∨
    (route env a.state path = .ok (if n ∈ a.state.dirs then .dir n rest else .here) ∧
      ∀ p b, Home env w n a p b ↔ p = [] ∧ b = a) ∨
    ∃ i, route env a.state path = .ok (.shard i) ∧ i ∈ a.indices ∧
      ∀ p b, Home env w n a p b ↔
        ∃ child q, openDirShard env w a i = .ok child ∧ p = i :: q ∧ Home env w n child q b := by
  have hdirect : routeDirect a.state path = if n ∈ a.state.dirs then .dir n rest else .here := by
    simp only [routeDirect, hsplit]
  cases hl : a.state.header.shardLevel with
  | none =>
    refine .inr (.inl ⟨by simp only [route, hl, hdirect], fun p b => ?_⟩)
    constructor
    · intro hp
      cases hp with
      | unsharded => exact ⟨rfl, rfl⟩
      | absent hl' => cases hl.symm.trans hl'
      | shard hl' => cases hl.symm.trans hl'
    · rintro ⟨rfl, rfl⟩
      exact .unsharded hl
  | some level =>
    cases hb : shardBucketFor env n level with
    | error e =>
      refine .inl ⟨e, by simp [route, hl, hsplit, hb, bind, Except.bind], fun p b hp => ?_⟩
      cases hp with
      | unsharded hl' => cases hl.symm.trans hl'
      | absent hl' hb' =>
        obtain rfl := Option.some.inj (hl.symm.trans hl')
        cases hb.symm.trans hb'
      | shard hl' hb' =>
        obtain rfl := Option.some.inj (hl.symm.trans hl')
        cases hb.symm.trans hb'
    | ok i =>
      have hroute : route env a.state path =
          .ok (if (a.shardRef i).isSome then .shard i else routeDirect a.state path) := by
        obtain hsh | ⟨shards, hsh⟩ := Option.eq_none_or_eq_some a.state.header.shards
        · simp [route, hl, hsplit, hb, shardRef, hsh, bind, Except.bind, pure, Except.pure]
        · by_cases hi : i ∈ shards
          · simp [route, hl, hsplit, hb, shardRef, hsh, hi, bind, Except.bind, pure, Except.pure]
          · simp [route, hl, hsplit, hb, shardRef, hsh, hi, bind, Except.bind, pure, Except.pure]
      by_cases href : (a.shardRef i).isSome
      · refine .inr (.inr ⟨i, by rw [hroute, if_pos href], mem_indices.2 href, fun p b => ?_⟩)
        constructor
        · intro hp
          cases hp with
          | unsharded hl' => cases hl.symm.trans hl'
          | absent hl' hb' href' =>
            obtain rfl := Option.some.inj (hl.symm.trans hl')
            obtain rfl := Except.ok.inj (hb.symm.trans hb')
            exact absurd (href.symm.trans href') (by decide)
          | shard hl' hb' _ ho hp =>
            obtain rfl := Option.some.inj (hl.symm.trans hl')
            obtain rfl := Except.ok.inj (hb.symm.trans hb')
            exact ⟨_, _, ho, rfl, hp⟩
        · rintro ⟨child, q, ho, rfl, hp⟩
          exact .shard hl hb href ho hp
      · have hnone : (a.shardRef i).isSome = false := by simpa using href
        refine .inr (.inl ⟨by rw [hroute, if_neg href, hdirect], fun p b => ?_⟩)
        constructor
        · intro hp
          cases hp with
          | unsharded => exact ⟨rfl, rfl⟩
          | absent => exact ⟨rfl, rfl⟩
          | shard hl' hb' href' =>
            obtain rfl := Option.some.inj (hl.symm.trans hl')
            obtain rfl := Except.ok.inj (hb.symm.trans hb')
            exact absurd (hnone.symm.trans href') (by decide)
        · rintro ⟨rfl, rfl⟩
          exact .absent hl hb hnone

variable (env w) in
/-- The buckets of the name `n` lead from the directory `a` to `b`, which is `a` or one of its shards. -/
def IsHome (a : Actor) (n : String) (b : Actor) : Prop := ∃ p, Home env w n a p b

/-- What the home of a segment holds as a directory is shown as one. -/
theorem IsHome.lists {a b : Actor} {n : String} {e : Entry} (h : IsHome env w a n b)
    (hl : Lists env w a n e) (hdir : n ∈ b.state.dirs) : e.1.isSome := by
  have hentry : (b.state.entry n).1.isSome := ExtTreeMap.mem_iff_isSome_getElem?.1 hdir
  obtain ⟨p, hp⟩ := h
  obtain ⟨fuel, hopen, rfl⟩ := hl
  induction hp generalizing fuel with
  | unsharded hl =>
    cases fuel with
    | zero => exact hopen.elim
    | succ fuel => exact (hopen.flatEntry_dir n).2 (.inl hentry)
  | absent hl hb href =>
    cases fuel with
    | zero => exact hopen.elim
    | succ fuel => exact (hopen.flatEntry_dir n).2 (.inl hentry)
  | @shard a child b level index path hl hb href ho _ ih =>
    cases fuel with
    | zero => exact hopen.elim
    | succ fuel =>
      have hi : index ∈ a.indices := mem_indices.2 href
      obtain ⟨child', ho', hopen'⟩ := hopen index hi
      obtain rfl := Except.ok.inj (ho.symm.trans ho')
      exact (hopen.flatEntry_dir n).2 (.inr ⟨index, hi, child, ho, ih hdir hentry fuel hopen'⟩)

/-! ## Child directories -/

variable (env w regs) in
/-- The child directory that a path with the first segment `n` is handed to. -/
def SubDir (a : Actor) (n : String) (child : Actor) : Prop :=
  ∃ b, IsHome env w a n b ∧ n ∈ b.state.dirs ∧ openDir env w regs b n = .ok child

/-- Where one hop leads to, for a path with the first segment `n`. -/
theorem routeToChild_cases (env : Env β) (w : World β) (regs : RegistryDirHandles) (a : Actor)
    {path n rest : String} (hsplit : splitPath path = (n, rest)) :
    (∃ e, routeToChild env w regs a path = .error e ∧ (∀ c, ¬ SubDir env w regs a n c) ∧
      ∀ b, IsHome env w a n b → n ∈ b.state.dirs) ∨
    (routeToChild env w regs a path = .ok none ∧ n ∉ a.state.dirs ∧
      ∀ p b, Home env w n a p b ↔ p = [] ∧ b = a) ∨
    (∃ child, routeToChild env w regs a path = .ok (some (child, rest)) ∧
      SubDir env w regs a n child ∧ n ∈ a.state.dirs ∧ ∀ p b, Home env w n a p b ↔ p = [] ∧ b = a) ∨
    ∃ i child, routeToChild env w regs a path = .ok (some (child, path)) ∧
      ∀ p b, Home env w n a p b ↔ ∃ q, p = i :: q ∧ Home env w n child q b := by
  obtain ⟨e, hroute, hhome⟩ | ⟨hroute, hhome⟩ | ⟨i, hroute, -, hhome⟩ := route_home env w a hsplit
  · refine .inl ⟨e, by simp only [routeToChild, hroute, bind, Except.bind], ?_, ?_⟩
    · rintro c ⟨b, ⟨p, hp⟩, -⟩
      exact hhome p b hp
    · rintro b ⟨p, hp⟩
      exact absurd hp (hhome p b)
  · by_cases hdir : n ∈ a.state.dirs
    · rw [if_pos hdir] at hroute
      cases ho : openDir env w regs a n with
      | error e =>
        refine .inl ⟨e, by simp only [routeToChild, hroute, ho, bind, Except.bind], ?_, ?_⟩
        · rintro c ⟨b, ⟨p, hp⟩, -, hc⟩
          obtain ⟨-, rfl⟩ := (hhome p b).1 hp
          cases ho.symm.trans hc
        · rintro b ⟨p, hp⟩
          obtain ⟨-, rfl⟩ := (hhome p b).1 hp
          exact hdir
      | ok child =>
        refine .inr (.inr (.inl ⟨child, ?_, ⟨a, ⟨[], (hhome [] a).2 ⟨rfl, rfl⟩⟩, hdir, ho⟩, hdir, hhome⟩))
        simp only [routeToChild, hroute, ho, bind, Except.bind, pure, Except.pure]
    · rw [if_neg hdir] at hroute
      refine .inr (.inl ⟨?_, hdir, hhome⟩)
      simp only [routeToChild, hroute, bind, Except.bind, pure, Except.pure]
  · cases ho : openDirShard env w a i with
    | error e =>
      refine .inl ⟨e, by simp only [routeToChild, hroute, ho, bind, Except.bind], ?_, ?_⟩
      · rintro c ⟨b, ⟨p, hp⟩, -⟩
        obtain ⟨child, q, hc, -⟩ := (hhome p b).1 hp
        cases ho.symm.trans hc
      · rintro b ⟨p, hp⟩
        obtain ⟨child, q, hc, -⟩ := (hhome p b).1 hp
        cases ho.symm.trans hc
    | ok child =>
      refine .inr (.inr (.inr ⟨i, child, ?_, fun p b => ?_⟩))
      · simp only [routeToChild, hroute, ho, bind, Except.bind, pure, Except.pure]
      · rw [hhome]
        constructor
        · rintro ⟨child', q, hc, rfl, hq⟩
          obtain rfl := Except.ok.inj (ho.symm.trans hc)
          exact ⟨q, rfl, hq⟩
        · rintro ⟨q, rfl, hq⟩
          exact ⟨child, q, ho, rfl, hq⟩

theorem IsHome.unique {a b b' : Actor} {n : String} (h : IsHome env w a n b)
    (h' : IsHome env w a n b') : b = b' := by
  obtain ⟨p, hp⟩ := h
  obtain ⟨p', hp'⟩ := h'
  induction hp generalizing p' with
  | unsharded hl =>
    cases hp' with
    | unsharded => rfl
    | absent => rfl
    | shard hl' => cases hl.symm.trans hl'
  | absent hl hb href =>
    cases hp' with
    | unsharded => rfl
    | absent => rfl
    | shard hl' hb' href' =>
      obtain rfl := Option.some.inj (hl.symm.trans hl')
      obtain rfl := Except.ok.inj (hb.symm.trans hb')
      exact absurd (href.symm.trans href') (by decide)
  | shard hl hb href ho _ ih =>
    cases hp' with
    | unsharded hl' => cases hl.symm.trans hl'
    | absent hl' hb' href' =>
      obtain rfl := Option.some.inj (hl.symm.trans hl')
      obtain rfl := Except.ok.inj (hb.symm.trans hb')
      exact absurd (href'.symm.trans href) (by decide)
    | shard hl' hb' href' ho' hp' =>
      obtain rfl := Option.some.inj (hl.symm.trans hl')
      obtain rfl := Except.ok.inj (hb.symm.trans hb')
      obtain rfl := Except.ok.inj (ho.symm.trans ho')
      exact ih _ hp'

theorem SubDir.unique {a c c' : Actor} {n : String} (h : SubDir env w regs a n c)
    (h' : SubDir env w regs a n c') : c = c' := by
  obtain ⟨b, hb, -, ho⟩ := h
  obtain ⟨b', hb', -, ho'⟩ := h'
  obtain rfl := hb.unique hb'
  exact Except.ok.inj (ho.symm.trans ho')

/-- A path that goes from `a` on to `child` under one name has the same homes there. -/
theorem isHome_shard {a child : Actor} {n : String} {i : UInt8}
    (h : ∀ p b, Home env w n a p b ↔ ∃ q, p = i :: q ∧ Home env w n child q b) (b : Actor) :
    IsHome env w a n b ↔ IsHome env w child n b := by
  constructor
  · rintro ⟨p, hp⟩
    obtain ⟨q, -, hq⟩ := (h p b).1 hp
    exact ⟨q, hq⟩
  · rintro ⟨q, hq⟩
    exact ⟨i :: q, (h _ b).2 ⟨q, rfl, hq⟩⟩

theorem isHome_self {a : Actor} {n : String} (h : ∀ p b, Home env w n a p b ↔ p = [] ∧ b = a)
    (b : Actor) : IsHome env w a n b ↔ b = a := by
  constructor
  · rintro ⟨p, hp⟩
    exact ((h p b).1 hp).2
  · rintro rfl
    exact ⟨[], (h [] b).2 ⟨rfl, rfl⟩⟩

/-- A property of the child that a path is handed to and of its home, whichever actors of the
directory the path passes. -/
theorem home_induction (regs : RegistryDirHandles) {n path rest : String}
    (hsplit : splitPath path = (n, rest)) {P : Actor → Prop}
    (here : ∀ a, routeToChild env w regs a path = .ok none → n ∉ a.state.dirs → IsHome env w a n a →
      P a)
    (dir : ∀ a child, routeToChild env w regs a path = .ok (some (child, rest)) →
      SubDir env w regs a n child → P a)
    (unopened : ∀ a e, routeToChild env w regs a path = .error e →
      (∀ c, ¬ SubDir env w regs a n c) → (∀ b, IsHome env w a n b → n ∈ b.state.dirs) → P a)
    (shard : ∀ a child, routeToChild env w regs a path = .ok (some (child, path)) →
      (∀ b, IsHome env w a n b ↔ IsHome env w child n b) → P child → P a)
    {a b : Actor} (h : IsHome env w a n b) : P a := by
  obtain ⟨p, hp⟩ := h
  induction p generalizing a with
  | nil =>
    obtain ⟨e, hrtc, hsub, hmem⟩ | ⟨hrtc, hdir, hhome⟩ | ⟨child, hrtc, hsub, -, hhome⟩ |
      ⟨i, child, hrtc, hhome⟩ := routeToChild_cases env w regs a hsplit
    · exact unopened a e hrtc hsub hmem
    · exact here a hrtc hdir ((isHome_self hhome a).2 rfl)
    · exact dir a child hrtc hsub
    · obtain ⟨q, hq, -⟩ := (hhome [] b).1 hp
      cases hq
  | cons i p ih =>
    obtain ⟨e, hrtc, hsub, hmem⟩ | ⟨hrtc, hdir, hhome⟩ | ⟨child, hrtc, hsub, -, hhome⟩ |
      ⟨j, child, hrtc, hhome⟩ := routeToChild_cases env w regs a hsplit
    · exact unopened a e hrtc hsub hmem
    · exact here a hrtc hdir ((isHome_self hhome a).2 rfl)
    · exact dir a child hrtc hsub
    · obtain ⟨q, hq, hhq⟩ := (hhome _ b).1 hp
      cases hq
      exact shard a child hrtc (isHome_shard hhome) (ih hhq)

theorem subDir_congr {a child c : Actor} {n : String}
    (h : ∀ b, IsHome env w a n b ↔ IsHome env w child n b) :
    SubDir env w regs a n c ↔ SubDir env w regs child n c :=
  exists_congr fun b => and_congr_left' (h b)

/-! ## Lookups -/

/-- **A lookup** that finds a file finds it below the child directory of the first segment, or at the
home of the first segment, under the whole path. -/
theorem reaches_some_iff {a : Actor} {path n rest : String} {f : FileRef}
    (hsplit : splitPath path = (n, rest)) :
    Reaches env w regs a path (some f) ↔
      (∃ child, SubDir env w regs a n child ∧ Reaches env w regs child rest (some f)) ∨
        ∃ b, IsHome env w a n b ∧ n ∉ b.state.dirs ∧ b.state.files[path]? = some f := by
  constructor
  · rintro ⟨fuel, h⟩
    induction fuel generalizing a with
    | zero => cases h
    | succ fuel ih =>
      rw [lookup] at h
      obtain ⟨e, hrtc, -⟩ | ⟨hrtc, hdir, hhome⟩ | ⟨child, hrtc, hsub, -⟩ | ⟨i, child, hrtc, hhome⟩ :=
        routeToChild_cases env w regs a hsplit
      · rw [hrtc] at h
        cases h
      · rw [hrtc] at h
        exact .inr ⟨a, (isHome_self hhome a).2 rfl, hdir, Option.some.inj h⟩
      · rw [hrtc] at h
        exact .inl ⟨child, hsub, fuel, h⟩
      · rw [hrtc] at h
        have hc := isHome_shard hhome
        obtain ⟨c, hsub, hr⟩ | ⟨b, hb, hfile⟩ := ih h
        · exact .inl ⟨c, (subDir_congr hc).2 hsub, hr⟩
        · exact .inr ⟨b, (hc b).2 hb, hfile⟩
  · intro h
    obtain ⟨b, hb⟩ : ∃ b, IsHome env w a n b := by
      obtain ⟨c, ⟨b, hb, -⟩, -⟩ | ⟨b, hb, -⟩ := h
      · exact ⟨b, hb⟩
      · exact ⟨b, hb⟩
    revert h
    refine home_induction (P := fun a => ((∃ child, SubDir env w regs a n child ∧
        Reaches env w regs child rest (some f)) ∨
        ∃ b, IsHome env w a n b ∧ n ∉ b.state.dirs ∧ b.state.files[path]? = some f) →
      Reaches env w regs a path (some f)) regs hsplit ?here ?dir ?unopened ?shard hb
    case here =>
      rintro a hrtc hdir hself (⟨c, ⟨b, hb, hmem, -⟩, -⟩ | ⟨b, hb, -, hfile⟩)
      · exact absurd (hself.unique hb ▸ hmem) hdir
      · obtain rfl := hself.unique hb
        exact ⟨1, by rw [lookup, hrtc]; exact congrArg some hfile⟩
    case dir =>
      rintro a child hrtc hsub (⟨c, hc, fuel, hr⟩ | ⟨b, hb, hmem, -⟩)
      · obtain rfl := hsub.unique hc
        exact ⟨fuel + 1, by rw [lookup, hrtc]; exact hr⟩
      · obtain ⟨b', hb', hmem', -⟩ := hsub
        exact absurd (hb'.unique hb ▸ hmem') hmem
    case unopened =>
      rintro a e hrtc hsub hmem (⟨c, hc, -⟩ | ⟨b, hb, hnot, -⟩)
      · exact absurd hc (hsub c)
      · exact absurd (hmem b hb) hnot
    case shard =>
      intro a child hrtc hc ih h
      have hchild : (∃ c, SubDir env w regs child n c ∧ Reaches env w regs c rest (some f)) ∨
          ∃ b, IsHome env w child n b ∧ n ∉ b.state.dirs ∧ b.state.files[path]? = some f := by
        obtain ⟨c, hsub, hr⟩ | ⟨b, hb, hfile⟩ := h
        · exact .inl ⟨c, (subDir_congr hc).1 hsub, hr⟩
        · exact .inr ⟨b, (hc b).1 hb, hfile⟩
      obtain ⟨fuel, hr⟩ := ih hchild
      exact ⟨fuel + 1, by rw [lookup, hrtc]; exact hr⟩

/-! ## Exports by path -/

theorem exportMergedSnapshotAt_succ {fuel : Nat} {a : Actor} {path : String} {d : DirV1}
    (h : exportMergedSnapshotAt env w regs fuel a path = .ok d) :
    exportMergedSnapshotAt env w regs (fuel + 1) a path = .ok d := by
  induction fuel generalizing a path with
  | zero => cases h
  | succ fuel ih =>
    rw [exportMergedSnapshotAt] at h ⊢
    split at h
    · rename_i hp
      rw [if_pos hp]
      exact exportMergedSnapshot_succ h
    · rename_i hp
      rw [if_neg hp]
      cases hrtc : routeToChild env w regs a path with
      | error e =>
        rw [hrtc] at h
        cases h
      | ok r =>
        rw [hrtc] at h
        cases r with
        | none => cases h
        | some x => exact ih h

theorem exportMergedSnapshotAt_le {fuel fuel' : Nat} {a : Actor} {path : String} {d : DirV1}
    (hle : fuel ≤ fuel') (h : exportMergedSnapshotAt env w regs fuel a path = .ok d) :
    exportMergedSnapshotAt env w regs fuel' a path = .ok d := by
  induction fuel', hle using Nat.le_induction with
  | base => exact h
  | succ n _ ih => exact exportMergedSnapshotAt_succ ih

variable (env w regs) in
/-- The directory at a path has the merged snapshot `d`. -/
def Exports (a : Actor) (path : String) (d : DirV1) : Prop :=
  ∃ fuel, exportMergedSnapshotAt env w regs fuel a path = .ok d

theorem exports_empty {a : Actor} {d : DirV1} :
    Exports env w regs a "" d ↔ ∃ fuel, exportMergedSnapshot env w fuel a = .ok d := by
  constructor
  · rintro ⟨fuel, h⟩
    cases fuel with
    | zero => cases h
    | succ fuel =>
      rw [exportMergedSnapshotAt, if_pos rfl] at h
      exact ⟨fuel + 1, h⟩
  · rintro ⟨fuel, h⟩
    cases fuel with
    | zero => cases h
    | succ fuel => exact ⟨fuel + 1, by rw [exportMergedSnapshotAt, if_pos rfl]; exact h⟩

/-- The first segment of a path leads to a child directory, which the rest is asked of. -/
theorem exports_cons {a : Actor} {path n rest : String} {d : DirV1}
    (hsplit : splitPath path = (n, rest)) (hne : path ≠ "") :
    Exports env w regs a path d ↔ ∃ child, SubDir env w regs a n child ∧ Exports env w regs child rest d := by
  constructor
  · rintro ⟨fuel, h⟩
    induction fuel generalizing a with
    | zero => cases h
    | succ fuel ih =>
      rw [exportMergedSnapshotAt, if_neg hne] at h
      obtain ⟨e, hrtc, -⟩ | ⟨hrtc, hdir, hhome⟩ | ⟨child, hrtc, hsub, -⟩ | ⟨i, child, hrtc, hhome⟩ :=
        routeToChild_cases env w regs a hsplit
      · rw [hrtc] at h
        cases h
      · rw [hrtc] at h
        cases h
      · rw [hrtc] at h
        exact ⟨child, hsub, fuel, h⟩
      · rw [hrtc] at h
        obtain ⟨c, hsub, hx⟩ := ih h
        exact ⟨c, (subDir_congr (isHome_shard hhome)).2 hsub, hx⟩
  · rintro ⟨c, hsub, fuel, hx⟩
    obtain ⟨b, hb, -⟩ := id hsub
    revert hsub
    refine home_induction (P := fun a => SubDir env w regs a n c → Exports env w regs a path d) regs
      hsplit ?here ?dir ?unopened ?shard hb
    case here =>
      rintro a hrtc hdir hself ⟨b, hb, hmem, -⟩
      exact absurd (hself.unique hb ▸ hmem) hdir
    case dir =>
      intro a child hrtc hsub hc
      obtain rfl := hsub.unique hc
      exact ⟨fuel + 1, by rw [exportMergedSnapshotAt, if_neg hne, hrtc]; exact hx⟩
    case unopened =>
      intro a e hrtc hsub hmem hc
      exact absurd hc (hsub c)
    case shard =>
      intro a child hrtc hc ih hsub
      obtain ⟨k, hk⟩ := ih ((subDir_congr hc).1 hsub)
      exact ⟨k + 1, by rw [exportMergedSnapshotAt, if_neg hne, hrtc]; exact hk⟩

variable (env w regs) in
/-- The directory that segments lead to, one child directory after the other. -/
def DirAt : Actor → List String → Actor → Prop
  | a, [], c => c = a
  | a, s :: rest, c => ∃ child, SubDir env w regs a s child ∧ DirAt child rest c

theorem DirAt.unique {a c c' : Actor} {segs : List String} (h : DirAt env w regs a segs c)
    (h' : DirAt env w regs a segs c') : c = c' := by
  induction segs generalizing a with
  | nil => exact Eq.trans h (Eq.symm h')
  | cons s rest ih =>
    obtain ⟨child, hsub, hc⟩ := h
    obtain ⟨child', hsub', hc'⟩ := h'
    obtain rfl := hsub.unique hsub'
    exact ih hc hc'

theorem dirAt_snoc {a c' : Actor} {segs : List String} {s : String} :
    DirAt env w regs a (segs ++ [s]) c' ↔
      ∃ c, DirAt env w regs a segs c ∧ SubDir env w regs c s c' := by
  induction segs generalizing a with
  | nil =>
    constructor
    · rintro ⟨child, hsub, rfl⟩
      exact ⟨a, rfl, hsub⟩
    · rintro ⟨c, rfl, hsub⟩
      exact ⟨c', hsub, rfl⟩
  | cons t segs ih =>
    constructor
    · rintro ⟨child, hsub, hc⟩
      obtain ⟨c, hc, hs⟩ := ih.1 hc
      exact ⟨c, ⟨child, hsub, hc⟩, hs⟩
    · rintro ⟨c, ⟨child, hsub, hc⟩, hs⟩
      exact ⟨child, hsub, ih.2 ⟨c, hc, hs⟩⟩

/-- **An export by path** is the merged snapshot of the directory that its segments lead to. -/
theorem exports_joinPath {a : Actor} {segs : List String} {d : DirV1} (h : Proper segs) :
    Exports env w regs a (joinPath segs) d ↔
      ∃ c, DirAt env w regs a segs c ∧ ∃ fuel, exportMergedSnapshot env w fuel c = .ok d := by
  induction segs generalizing a with
  | nil => simp [joinPath_nil, exports_empty, DirAt]
  | cons s rest ih =>
    have hne : joinPath (s :: rest) ≠ "" := mt (joinPath_eq_empty h).1 (List.cons_ne_nil s rest)
    rw [exports_cons (splitPath_joinPath h.cons.1.2 rest) hne]
    simp only [ih h.cons.2, DirAt]
    constructor
    · rintro ⟨child, hsub, c, hc, hx⟩
      exact ⟨c, ⟨child, hsub, hc⟩, hx⟩
    · rintro ⟨c, ⟨child, hsub, hc⟩, hx⟩
      exact ⟨child, hsub, c, hc, hx⟩

end Actor

end Fs
