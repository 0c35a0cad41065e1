import S5.Fs.Listing
import S5.Fs.Symbolic

/-!
# Pages list every entry once

A page is the front of what is left of the entries, in the order of their names with a directory
before a file of the same name (`fillPage_eq`), and its cursor stands at its last entry
(`listSnapshot_after`).

* `pagination_exact`: the pages of a walk from the start to the end, put together, are the entries of
  the merged snapshot in that order, each once.
-/

open Std

namespace Fs

/-! ## The order of entries -/

/-- Names ascend, and a directory comes before a file of the same name. -/
def EntryLt (a b : ListEntry) : Prop :=
  compare a.1 b.1 = .lt ∨ a.1 = b.1 ∧ a.2 = .directory ∧ b.2 = .file

def entryLe (a b : ListEntry) : Bool :=
  match compare a.1 b.1 with
  | .lt => true
  | .gt => false
  | .eq => a.2 = .directory || b.2 = .file

theorem entryLe_iff {a b : ListEntry} : entryLe a b = true ↔ EntryLt a b ∨ a = b := by
  obtain ⟨n, k⟩ := a
  obtain ⟨m, l⟩ := b
  unfold entryLe EntryLt
  cases h : compare n m with
  | lt => simp
  | gt =>
    have hne : n ≠ m := by
      rintro rfl
      simp at h
    simp [hne]
  | eq =>
    obtain rfl := Std.compare_eq_iff_eq.1 h
    cases k <;> cases l <;> simp

theorem entryLe_total (a b : ListEntry) : (entryLe a b || entryLe b a) = true := by
  obtain ⟨n, k⟩ := a
  obtain ⟨m, l⟩ := b
  unfold entryLe
  have hswap : compare m n = (compare n m).swap := OrientedCmp.eq_swap
  dsimp only
  rw [hswap]
  cases compare n m with
  | lt => rfl
  | gt => rfl
  | eq => cases k <;> cases l <;> rfl

theorem entryLt_trans {a b c : ListEntry} (h : EntryLt a b) (h' : EntryLt b c) : EntryLt a c := by
  obtain ⟨n, k⟩ := a
  obtain ⟨m, l⟩ := b
  obtain ⟨p, q⟩ := c
  rcases h with h | ⟨h, hk, hl⟩ <;> rcases h' with h' | ⟨h', hl', hq⟩
  · exact .inl (TransCmp.lt_trans h h')
  · exact .inl (show compare n p = .lt from (show m = p from h') ▸ h)
  · exact .inl (show compare n p = .lt from (show n = m from h) ▸ h')
  · rw [hl] at hl'
    cases hl'

theorem entryLt_irrefl (a : ListEntry) : ¬ EntryLt a a := by
  rintro (h | ⟨-, h, h'⟩)
  · simp at h
  · rw [h] at h'
    cases h'

theorem entryLe_trans (a b c : ListEntry) (h : entryLe a b = true) (h' : entryLe b c = true) :
    entryLe a c = true := by
  rw [entryLe_iff] at h h' ⊢
  rcases h with h | rfl
  · rcases h' with h' | rfl
    · exact .inl (entryLt_trans h h')
    · exact .inl h
  · exact h'

theorem entryLe_antisymm {a b : ListEntry} (h : entryLe a b = true) (h' : entryLe b a = true) :
    a = b := by
  rw [entryLe_iff] at h h'
  rcases h with h | rfl
  · rcases h' with h' | rfl
    · exact absurd (entryLt_trans h h') (entryLt_irrefl a)
    · rfl
  · rfl

/-! ## What a page is the front of -/

/-- Directories and files in their order. -/
def mergeEntries (dirs files : List String) : List ListEntry :=
  (dirs.map (·, CursorKind.directory)).merge (files.map (·, CursorKind.file)) entryLe

/-- Names in strictly ascending order. -/
abbrev Ascends (names : List String) : Prop := names.Pairwise fun a b => compare a b = .lt

/-- The entries of one kind ascend as their names do. -/
theorem pairwise_map_kind {names : List String} (h : Ascends names) (kind : CursorKind) :
    (names.map (·, kind)).Pairwise fun a b => entryLe a b = true := by
  rw [List.pairwise_map]
  exact h.imp fun hab => entryLe_iff.2 (.inl (.inl hab))

theorem pairwise_mergeEntries {dirs files : List String} (hd : Ascends dirs) (hf : Ascends files) :
    (mergeEntries dirs files).Pairwise fun a b => entryLe a b = true :=
  List.pairwise_merge entryLe_trans entryLe_total _ _ (pairwise_map_kind hd _) (pairwise_map_kind hf _)

/-- A directory and the file of its name, where both come first. -/
theorem mergeEntries_same {d : String} {dirs files : List String} (hd : Ascends (d :: dirs)) :
    mergeEntries (d :: dirs) (d :: files) =
      (d, .directory) :: (d, .file) :: mergeEntries dirs files := by
  have hfirst : entryLe (d, .directory) (d, .file) = true := entryLe_iff.2 (.inl (.inr ⟨rfl, rfl, rfl⟩))
  unfold mergeEntries
  rw [List.map_cons, List.map_cons, List.cons_merge_cons_pos _ _ _ hfirst]
  cases dirs with
  | nil => simp
  | cons d' dirs =>
    have hlt : compare d d' = .lt := List.rel_of_pairwise_cons hd List.mem_cons_self
    have hlater : ¬ entryLe (d', .directory) (d, .file) = true := by
      have hgt : compare d' d = .gt := OrientedCmp.gt_of_lt hlt
      simp [entryLe, hgt]
    rw [List.map_cons, List.cons_merge_cons_neg _ _ _ hlater]

/-- **A page is the front of the entries.** -/
theorem fillPage_eq : ∀ (room : Nat) {dirs files : List String}, Ascends dirs → Ascends files →
    fillPage room dirs files = (mergeEntries dirs files).take room := by
  intro room
  induction room using Nat.strongRecOn with
  | ind room ih =>
    intro dirs files hd hf
    match room, dirs, files with
    | 0, _, _ => simp [fillPage]
    | room + 1, [], [] => simp [fillPage, mergeEntries]
    | room + 1, d :: dirs, [] =>
      have hrest := ih room (Nat.lt_succ_self _) (List.pairwise_cons.1 hd).2 hf
      simp only [fillPage, hrest]
      simp [mergeEntries]
    | room + 1, [], f :: files =>
      have hrest := ih room (Nat.lt_succ_self _) hd (List.pairwise_cons.1 hf).2
      simp only [fillPage, hrest]
      simp [mergeEntries]
    | room + 1, d :: dirs, f :: files =>
      unfold fillPage
      split
      · rename_i hc
        have hle : entryLe (d, .directory) (f, .file) = true := by simp [entryLe, hc]
        rw [ih room (Nat.lt_succ_self _) (List.pairwise_cons.1 hd).2 hf]
        simp only [mergeEntries, List.map_cons, List.cons_merge_cons_pos _ _ _ hle, List.take_succ_cons]
      · rename_i hc
        have hle : ¬ entryLe (d, .directory) (f, .file) = true := by simp [entryLe, hc]
        rw [ih room (Nat.lt_succ_self _) hd (List.pairwise_cons.1 hf).2]
        simp only [mergeEntries, List.map_cons, List.cons_merge_cons_neg _ _ _ hle, List.take_succ_cons]
      · rename_i hc
        obtain rfl := Std.compare_eq_iff_eq.1 hc
        rw [mergeEntries_same hd]
        cases room with
        | zero => rfl
        | succ room =>
          dsimp only
          rw [ih room (by omega) (List.pairwise_cons.1 hd).2 (List.pairwise_cons.1 hf).2]
          rfl

/-! ## Cursors -/

/-- The entries of a snapshot. -/
def DirV1.entries (d : DirV1) : List ListEntry := mergeEntries d.dirs.keys d.files.keys

theorem mem_mergeEntries {dirs files : List String} {e : ListEntry} :
    e ∈ mergeEntries dirs files ↔
      (e.2 = .directory ∧ e.1 ∈ dirs) ∨ e.2 = .file ∧ e.1 ∈ files := by
  obtain ⟨n, kind⟩ := e
  unfold mergeEntries
  rw [List.mem_merge, List.mem_map, List.mem_map]
  cases kind <;> simp

theorem nodup_of_ascends {names : List String} (h : Ascends names) : names.Nodup := by
  refine h.imp ?_
  rintro a b hab rfl
  simp at hab

theorem nodup_mergeEntries {dirs files : List String} (hd : Ascends dirs) (hf : Ascends files) :
    (mergeEntries dirs files).Nodup := by
  have hperm : (mergeEntries dirs files).Perm
      (dirs.map (·, CursorKind.directory) ++ files.map (·, CursorKind.file)) := List.merge_perm_append _
  rw [hperm.nodup_iff, List.nodup_append]
  refine ⟨(nodup_of_ascends hd).map fun a b h => (Prod.mk.inj h).1,
    (nodup_of_ascends hf).map fun a b h => (Prod.mk.inj h).1, ?_⟩
  rintro ⟨n, kind⟩ hn ⟨m, kind'⟩ hm he
  obtain ⟨x, -, hx⟩ := List.mem_map.1 hn
  obtain ⟨y, -, hy⟩ := List.mem_map.1 hm
  rw [he, ← hy] at hx
  exact absurd (Prod.mk.inj hx).2 CursorKind.noConfusion

/-- What comes after an entry. -/
def isAfter (p e : ListEntry) : Bool := !entryLe e p

theorem isAfter_iff {p e : ListEntry} : isAfter p e = true ↔ EntryLt p e := by
  unfold isAfter
  rw [Bool.not_eq_true']
  constructor
  · intro h
    have htotal := entryLe_total p e
    rw [h, Bool.or_false, entryLe_iff] at htotal
    rcases htotal with ht | rfl
    · exact ht
    · rw [entryLe_iff.2 (.inr rfl)] at h
      cases h
  · intro h
    cases hle : entryLe e p with
    | false => rfl
    | true =>
      rcases entryLe_iff.1 hle with hlt | rfl
      · exact absurd (entryLt_trans h hlt) (entryLt_irrefl p)
      · exact absurd h (entryLt_irrefl e)

/-- The ranges behind a cursor hold what comes after its entry. -/
theorem mergeEntries_after {dirs files : List String} (hd : Ascends dirs) (hf : Ascends files)
    (p : ListEntry) : mergeEntries (rangeAfter dirs p.1)
      (match p.2 with
        | .directory => rangeFrom files p.1
        | .file => rangeAfter files p.1) = (mergeEntries dirs files).filter (isAfter p) := by
  have hda : Ascends (rangeAfter dirs p.1) := hd.filter _
  have hfa : Ascends (match p.2 with
      | .directory => rangeFrom files p.1
      | .file => rangeAfter files p.1) := by
    split
    · exact hf.filter _
    · exact hf.filter _
  refine List.Perm.eq_of_pairwise (fun a b _ _ h h' => entryLe_antisymm h h')
    (pairwise_mergeEntries hda hfa) ((pairwise_mergeEntries hd hf).filter _) ?_
  refine (List.perm_ext_iff_of_nodup (nodup_mergeEntries hda hfa)
    ((nodup_mergeEntries hd hf).filter _)).2 ?_
  rintro ⟨n, kind⟩
  obtain ⟨name, k⟩ := p
  rw [List.mem_filter, mem_mergeEntries, mem_mergeEntries, isAfter_iff]
  unfold EntryLt
  have hfrom : compare name n ≠ .gt ↔ compare name n = .lt ∨ name = n := by
    rw [← Std.compare_eq_iff_eq (a := name)]
    cases compare name n <;> simp
  cases kind with
  | directory => simp [rangeAfter]
  | file => cases k <;> simp [rangeAfter, rangeFrom, hfrom]

/-- What is left after a front of the entries has been listed. -/
theorem filter_isAfter {front rest : List ListEntry} {p : ListEntry}
    (h : (front ++ [p] ++ rest).Pairwise fun a b => entryLe a b = true)
    (hn : (front ++ [p] ++ rest).Nodup) : (front ++ [p] ++ rest).filter (isAfter p) = rest := by
  rw [List.append_assoc] at h hn ⊢
  obtain ⟨-, hp, hfront⟩ := List.pairwise_append.1 h
  obtain ⟨-, hnp, -⟩ := List.nodup_append.1 hn
  have h1 : front.filter (isAfter p) = [] := by
    rw [List.filter_eq_nil_iff]
    intro e he
    simp [isAfter, hfront e he p List.mem_cons_self]
  have h2 : isAfter p p = false := by
    simp [isAfter, entryLe_iff.2 (.inr rfl : EntryLt p p ∨ p = p)]
  have h3 : rest.filter (isAfter p) = rest := by
    rw [List.filter_eq_self]
    intro e he
    rw [isAfter_iff]
    rcases entryLe_iff.1 (List.rel_of_pairwise_cons hp he) with hlt | rfl
    · exact hlt
    · exact absurd he (List.nodup_cons.1 hnp).1
  rw [List.filter_append, h1, List.nil_append, List.singleton_append, List.filter_cons_of_neg (by simp [h2]),
    h3]

/-! ## The walk -/

def cursorOf (codec : CursorCodec) (p : ListEntry) : String :=
  codec.encodeCursor { position := p.1, kind := p.2, timestamp := none, path := none }

/-- A cursor from which `rest` of the entries is left. -/
def CursorAt (codec : CursorCodec) (snapshot : DirV1) (cursor : Option String) (rest : List ListEntry) :
    Prop :=
  cursor = none ∧ snapshot.entries = rest ∨
    ∃ front p, snapshot.entries = front ++ [p] ++ rest ∧ cursor = some (cursorOf codec p)

theorem ascends_keys {γ : Type} (m : ExtTreeMap String γ) : Ascends m.keys :=
  m.ordered_keys

section

variable {codec : CursorCodec} {snapshot : DirV1} {cursor : Option String} {rest : List ListEntry}
  {limit : Nat}

/-- **A page is the front of what is left, with the cursor of its last entry.** -/
theorem listSnapshot_after (hcodec : codec.RoundTrips)
    (h : CursorAt codec snapshot cursor rest) : listSnapshot codec snapshot cursor limit =
      (rest.take limit, (rest.take limit).getLast?.map (cursorOf codec)) := by
  have hd := ascends_keys snapshot.dirs
  have hf := ascends_keys snapshot.files
  rcases h with ⟨rfl, rfl⟩ | ⟨front, p, he, rfl⟩
  · simp only [listSnapshot, Option.bind_none, Option.map_none, fillPage_eq limit hd hf]
    rfl
  · have hrest : snapshot.entries.filter (isAfter p) = rest := by
      have hsorted := pairwise_mergeEntries hd hf
      have hnodup := nodup_mergeEntries hd hf
      change snapshot.entries.Pairwise _ at hsorted
      change snapshot.entries.Nodup at hnodup
      rw [he] at hsorted hnodup ⊢
      exact filter_isAfter hsorted hnodup
    have hafter := mergeEntries_after hd hf p
    change _ = snapshot.entries.filter (isAfter p) at hafter
    rw [hrest] at hafter
    obtain ⟨name, kind⟩ := p
    have hd' : Ascends (rangeAfter snapshot.dirs.keys name) := hd.filter _
    cases kind with
    | file =>
      have hf' : Ascends (rangeAfter snapshot.files.keys name) := hf.filter _
      simp only [listSnapshot, cursorOf, Option.bind_some, hcodec _ _, Option.map_some,
        fillPage_eq limit hd' hf']
      rw [← hafter]
      rfl
    | directory =>
      have hf' : Ascends (rangeFrom snapshot.files.keys name) := hf.filter _
      simp only [listSnapshot, cursorOf, Option.bind_some, hcodec _ _, Option.map_some,
        fillPage_eq limit hd' hf']
      rw [← hafter]
      rfl

theorem CursorAt.next {p : ListEntry} (h : CursorAt codec snapshot cursor rest)
    (hp : (rest.take limit).getLast? = some p) :
    CursorAt codec snapshot (some (cursorOf codec p)) (rest.drop limit) := by
  obtain ⟨page, hpage⟩ := List.getLast?_eq_some_iff.1 hp
  have hsplit : page ++ [p] ++ rest.drop limit = rest := by
    rw [← hpage, List.take_append_drop]
  rcases h with ⟨-, he⟩ | ⟨front, q, he, -⟩
  · exact .inr ⟨page, p, by rw [he, hsplit], rfl⟩
  · refine .inr ⟨front ++ [q] ++ page, p, ?_, rfl⟩
    rw [he, List.append_assoc (front ++ [q]), List.append_assoc (front ++ [q]), hsplit]

namespace Actor

variable {β : Type} {env : Env β} {w : World β} {fuel : Nat} {a : Actor}

/-- Each call lists at least one entry, so there is a last one. -/
theorem walkPages_after (hcodec : codec.RoundTrips)
    (hlimit : 1 ≤ limit) (hs : exportMergedSnapshot env w fuel a = .ok snapshot) :
    ∀ {calls : Nat} {cursor : Option String} {rest : List ListEntry}, rest.length < calls →
      CursorAt codec snapshot cursor rest →
      ∃ pages, walkPages env codec w fuel a limit calls cursor = some (.ok (pages ++ [[]])) ∧
        pages.flatten = rest ∧ (∀ page ∈ pages, page ≠ []) ∧
        ∀ page ∈ pages.dropLast, page.length = limit := by
  intro calls
  induction calls with
  | zero =>
    intro cursor rest hcalls
    omega
  | succ calls ih =>
    intro cursor rest hcalls hat
    have hlist : listEntries env codec w fuel a cursor limit =
        .ok (rest.take limit, (rest.take limit).getLast?.map (cursorOf codec)) := by
      unfold listEntries
      rw [hs]
      exact congrArg Except.ok (listSnapshot_after hcodec hat)
    cases hlast : (rest.take limit).getLast? with
    | none =>
      have hpage : rest.take limit = [] := List.getLast?_eq_none_iff.1 hlast
      have hnil : rest = [] := by
        rcases List.take_eq_nil_iff.1 hpage with h | h
        · omega
        · exact h
      refine ⟨[], ?_, ?_, ?_, ?_⟩
      · rw [hpage] at hlist
        simp only [walkPages, hlist, List.nil_append]
        rfl
      · simp [hnil]
      · simp
      · simp
    | some p =>
      have hne : rest ≠ [] := by
        rintro rfl
        simp at hlast
      have hpos : 0 < rest.length := List.length_pos_iff.2 hne
      have hshort : (rest.drop limit).length < calls := by
        rw [List.length_drop]
        omega
      obtain ⟨pages, hwalk, hflat, hnonempty, hfull⟩ := ih hshort (hat.next hlast)
      refine ⟨rest.take limit :: pages, ?_, ?_, ?_, ?_⟩
      · simp only [walkPages, hlist, hlast, Option.map_some, hwalk]
        rfl
      · rw [List.flatten_cons, hflat, List.take_append_drop]
      · intro page hmem
        rcases List.mem_cons.1 hmem with rfl | hmem
        · intro hnil
          rw [hnil] at hlast
          cases hlast
        · exact hnonempty page hmem
      · intro page hmem
        cases pages with
        | nil => simp at hmem
        | cons next pages =>
          rw [List.dropLast_cons_cons] at hmem
          rcases List.mem_cons.1 hmem with rfl | hmem
          · -- There is a next entry, so this page is full.
            have hrest : rest.drop limit ≠ [] := by
              intro hnil
              have hnext := hnonempty next List.mem_cons_self
              rw [hnil, List.flatten_cons] at hflat
              exact hnext (List.append_eq_nil_iff.1 hflat).1
            have hlen : 0 < (rest.drop limit).length := List.length_pos_iff.2 hrest
            rw [List.length_drop] at hlen
            rw [List.length_take]
            omega
          · exact hfull page hmem

/-- **Pagination is exact.** -/
theorem pagination_exact (env : Env β) (codec : CursorCodec) (w : World β) (fuel : Nat) (a : Actor)
    (limit : Nat) (snapshot : DirV1)
    (hcodec : codec.RoundTrips) (hlimit : 1 ≤ limit)
    (hs : exportMergedSnapshot env w fuel a = .ok snapshot) :
    ∃ calls pages, walkPages env codec w fuel a limit calls none = some (.ok (pages ++ [[]])) ∧
      pages.flatten.Pairwise EntryLt ∧
      (∀ name, (name, .directory) ∈ pages.flatten ↔ name ∈ snapshot.dirs) ∧
      (∀ name, (name, .file) ∈ pages.flatten ↔ name ∈ snapshot.files) ∧
      (∀ page ∈ pages, page ≠ []) ∧ ∀ page ∈ pages.dropLast, page.length = limit := by
  have hd := ascends_keys snapshot.dirs
  have hf := ascends_keys snapshot.files
  obtain ⟨pages, hwalk, hflat, hnonempty, hfull⟩ :=
    walkPages_after hcodec hlimit hs (Nat.lt_succ_self snapshot.entries.length) (.inl ⟨rfl, rfl⟩)
  refine ⟨_, pages, hwalk, ?_, ?_, ?_, hnonempty, hfull⟩
  · rw [hflat]
    have hboth := (pairwise_mergeEntries hd hf).and (nodup_mergeEntries hd hf)
    refine List.Pairwise.imp ?_ hboth
    intro p q h
    rcases entryLe_iff.1 h.1 with hlt | heq
    · exact hlt
    · exact absurd heq h.2
  · intro name
    rw [hflat, DirV1.entries, mem_mergeEntries]
    simp
  · intro name
    rw [hflat, DirV1.entries, mem_mergeEntries]
    simp

/-- A cursor as text: the kind's letter, then the name. -/
def letterCodec : CursorCodec where
  encodeCursor c := match c.kind with
    | .directory => String.ofList ('d' :: c.position.toList)
    | .file => String.ofList ('f' :: c.position.toList)
  decodeCursor s := match s.toList with
    | 'd' :: name => some ⟨String.ofList name, .directory, none, none⟩
    | 'f' :: name => some ⟨String.ofList name, .file, none, none⟩
    | _ => none

theorem letterCodec_roundTrips : letterCodec.RoundTrips := by
  intro position kind
  cases kind <;> simp [letterCodec]

/-- A directory in which a name is both a directory and a file. -/
def twiceNamed : DirV1 :=
  { DirV1.new with
    dirs := (∅ : ExtTreeMap String DirRef).insert "a" ⟨none, 0, none, none, none, none, none⟩
    files := ((∅ : ExtTreeMap String FileRef).insert "a" (.new 1 1)).insert "b" (.new 2 2) }

theorem pagination_exact_twiceNamed : ∃ calls pages, walkPages (symbolic xxh3Short) letterCodec
      emptyWorld 1 ⟨.newEncryptedRegistry 1 2 3, twiceNamed, false, [], [], 0, 0⟩ 1 calls none =
        some (.ok (pages ++ [[]])) ∧
    pages.flatten.Pairwise EntryLt ∧ ("a", .directory) ∈ pages.flatten ∧
    ("a", .file) ∈ pages.flatten := by
  obtain ⟨calls, pages, hwalk, hsorted, hdirs, hfiles, -⟩ := pagination_exact (symbolic xxh3Short)
    letterCodec emptyWorld 1 ⟨.newEncryptedRegistry 1 2 3, twiceNamed, false, [], [], 0, 0⟩ 1 twiceNamed
    letterCodec_roundTrips (Nat.le_refl 1) rfl
  refine ⟨calls, pages, hwalk, hsorted, (hdirs "a").2 ?_, (hfiles "a").2 ?_⟩
  · simp [twiceNamed]
  · simp [twiceNamed]

end Actor

end

end Fs
