/-
  File:      AgentKernel/Lib/Tables.lean
  Subject:   Tables with a primary key, and what a history of writes leaves in one place.

  A table has its rows in the order in which they came, each under a key of its own. It can be
  written to in three ways: a row under a new key (`insert`), a row in the place of the one it
  replaces (`upsert`), a row at the end instead of the one it replaces (`replace`).

  * `find_insert`, `find_upsert`, `find_replace`, `find_erase`: what is found after a write;
  * `OrderBy`: an order of rows by a key;
  * `exists_mapM`, `mem_mapM`: rows that are read one by one;
  * `written`: the last write of a history into one place, and **`written_eq_some`**: where in the
    history it stands;
  * **`get_foldl`**: what is in a place is what has been written to it last.
-/
import AgentKernel.Lib.Lists

namespace AgentKernel.Lib

/-! ## 1. Tables -/

/-- Rows with distinct keys. -/
structure Table {κ ρ : Type} (key : ρ → κ) where
  rows : List ρ
  distinct : (rows.map key).Nodup

namespace Table

variable {κ ρ : Type} {key : ρ → κ}

/-- No rows. -/
def empty : Table key := ⟨[], .nil⟩

theorem distinct_snoc {rows : List ρ} {r : ρ} (h : (rows.map key).Nodup)
    (hnew : key r ∉ rows.map key) : ((rows ++ [r]).map key).Nodup := by
  rw [List.map_append]
  exact h.append (List.nodup_singleton _) (List.disjoint_singleton.mpr hnew)

section Write

variable [DecidableEq κ] (t : Table key)

/-- The row of a key. -/
def find (k : κ) : Option ρ := t.rows.find? fun r => decide (key r = k)

/-- A row under a new key. -/
def insert (r : ρ) : Option (Table key) :=
  if h : key r ∈ t.rows.map key then none else some ⟨t.rows ++ [r], distinct_snoc t.distinct h⟩

/-- The row of a key is taken out. -/
def erase (k : κ) : Table key :=
  ⟨t.rows.filter fun r => key r ≠ k, t.distinct.sublist (List.filter_sublist.map key)⟩

theorem notMem_erase (k : κ) : k ∉ (t.erase k).rows.map key := by
  intro hk
  obtain ⟨r, hr, hkey⟩ := List.mem_map.mp hk
  exact of_decide_eq_true (List.mem_filter.mp hr).2 hkey

/-- A row at the end, instead of the one with its key. -/
def replace (r : ρ) : Table key :=
  ⟨(t.erase (key r)).rows ++ [r], distinct_snoc (t.erase _).distinct (t.notMem_erase _)⟩

theorem map_key_set (r : ρ) (rows : List ρ) :
    (rows.map fun r' => if key r' = key r then r else r').map key = rows.map key := by
  rw [List.map_map]
  refine List.map_congr_left fun r' _ => ?_
  rw [Function.comp_apply]
  split_ifs with h
  · exact h.symm
  · rfl

/-- A row in the place of the one with its key, if there is one. -/
def upsert (r : ρ) : Table key :=
  if h : key r ∈ t.rows.map key then
    ⟨t.rows.map fun r' => if key r' = key r then r else r', by rw [map_key_set]; exact t.distinct⟩
  else ⟨t.rows ++ [r], distinct_snoc t.distinct h⟩

end Write

/-! ## 2. What is found -/

section Find

variable [DecidableEq κ] {t t' : Table key} {k : κ} {r : ρ}

theorem find_eq_some : t.find k = some r ↔ r ∈ t.rows ∧ key r = k := by
  constructor
  · intro h
    exact ⟨List.mem_of_find?_eq_some h,
      of_decide_eq_true (List.find?_some (p := fun r => decide (key r = k)) h)⟩
  · rintro ⟨hr, hkey⟩
    cases hfind : t.find k with
    | none => exact absurd (decide_eq_true hkey) (List.find?_eq_none.mp hfind r hr)
    | some r' =>
        have hkey' : key r' = k :=
          of_decide_eq_true (List.find?_some (p := fun r => decide (key r = k)) hfind)
        have hr' : r' ∈ t.rows := List.mem_of_find?_eq_some hfind
        rw [List.inj_on_of_nodup_map t.distinct hr' hr (hkey'.trans hkey.symm)]

theorem find_eq_none : t.find k = none ↔ k ∉ t.rows.map key := by
  rw [Option.eq_none_iff_forall_not_mem]
  refine ⟨fun h hk => ?_, fun h r hr => ?_⟩
  · obtain ⟨r, hr, hkey⟩ := List.mem_map.mp hk
    exact h r (find_eq_some.mpr ⟨hr, hkey⟩)
  · obtain ⟨hr, hkey⟩ := find_eq_some.mp hr
    exact h (hkey ▸ List.mem_map_of_mem hr)

@[simp] theorem find_empty : (empty : Table key).find k = none := rfl

theorem mem_rows_iff : r ∈ t.rows ↔ t.find (key r) = some r := by
  rw [find_eq_some]
  exact ⟨fun h => ⟨h, rfl⟩, And.left⟩

theorem find_snoc {rows : List ρ} (h : (rows.map key).Nodup) (hnew : key r ∉ rows.map key) :
    (⟨rows ++ [r], distinct_snoc h hnew⟩ : Table key).find k =
      if k = key r then some r else (⟨rows, h⟩ : Table key).find k := by
  unfold find
  rw [List.find?_append]
  split_ifs with hk
  · have hnone : (rows.find? fun r' => decide (key r' = k)) = none :=
      (find_eq_none (t := ⟨rows, h⟩)).mpr (hk ▸ hnew)
    rw [hnone, Option.none_or]
    exact List.find?_cons_of_pos (decide_eq_true hk.symm)
  · rw [List.find?_cons_of_neg (by simpa using Ne.symm hk), List.find?_nil, Option.or_none]

theorem find_insert (h : t.insert r = some t') :
    t'.find k = if k = key r then some r else t.find k := by
  unfold insert at h
  split_ifs at h with hnew
  cases h
  exact find_snoc t.distinct hnew

theorem rows_insert (h : t.insert r = some t') : t'.rows = t.rows ++ [r] := by
  unfold insert at h
  split_ifs at h with hnew
  cases h
  rfl

theorem find_of_insert (h : t.insert r = some t') : t.find (key r) = none := by
  unfold insert at h
  split_ifs at h with hnew
  exact find_eq_none.mpr hnew

/-- An insert fails just when there is a row under its key. -/
theorem insert_eq_none : t.insert r = none ↔ t.find (key r) ≠ none := by
  unfold insert
  rw [Ne, find_eq_none, not_not]
  split_ifs with h <;> simp [h]

theorem find_erase {k' : κ} : (t.erase k').find k = if k = k' then none else t.find k := by
  split_ifs with hk
  · rw [hk]
    exact find_eq_none.mpr (t.notMem_erase k')
  · refine Option.ext fun r => ?_
    rw [find_eq_some, find_eq_some]
    unfold erase
    rw [List.mem_filter, decide_eq_true_eq]
    constructor
    · rintro ⟨⟨hr, -⟩, hkey⟩
      exact ⟨hr, hkey⟩
    · rintro ⟨hr, hkey⟩
      exact ⟨⟨hr, hkey ▸ hk⟩, hkey⟩

theorem find_replace : (t.replace r).find k = if k = key r then some r else t.find k := by
  have hout : (t.replace r).find k = if k = key r then some r else (t.erase (key r)).find k :=
    find_snoc (t.erase _).distinct (t.notMem_erase _)
  rw [hout, find_erase]
  split_ifs <;> rfl

theorem find_upsert : (t.upsert r).find k = if k = key r then some r else t.find k := by
  unfold upsert
  split_ifs with hold hk hk
  · rw [hk, find_eq_some]
    obtain ⟨r', hr', hkey⟩ := List.mem_map.mp hold
    exact ⟨List.mem_map.mpr ⟨r', hr', if_pos hkey⟩, rfl⟩
  · refine Option.ext fun r' => ?_
    rw [find_eq_some, find_eq_some]
    constructor
    · rintro ⟨hr', hkey⟩
      obtain ⟨r'', hr'', hsame⟩ := List.mem_map.mp hr'
      split_ifs at hsame with hreplaced
      · exact absurd (hkey.symm.trans (congrArg key hsame).symm) hk
      · exact ⟨hsame ▸ hr'', hkey⟩
    · rintro ⟨hr', hkey⟩
      refine ⟨List.mem_map.mpr ⟨r', hr', if_neg ?_⟩, hkey⟩
      rw [hkey]
      exact hk
  · rw [find_snoc t.distinct hold, if_pos hk]
  · rw [find_snoc t.distinct hold, if_neg hk]

end Find

end Table

/-! ## 3. Rows that are read -/

/-- An `ORDER BY`: rows come by their keys, and rows of one key in whatever order. -/
structure OrderBy {ρ κ : Type} (key : ρ → κ) (le : κ → κ → Prop) where
  sort : List ρ → List ρ
  perm : ∀ rows, (sort rows).Perm rows
  sorted : ∀ rows, ((sort rows).map key).Pairwise le

/-- The order that keeps rows of one key as they came. -/
def OrderBy.stable {ρ κ : Type} (key : ρ → κ) (le : κ → κ → Prop) [DecidableRel le] [Std.Total le]
    [IsTrans κ le] : OrderBy key le where
  sort := List.insertionSort fun a b => le (key a) (key b)
  perm := List.perm_insertionSort _
  sorted rows := by
    have : Std.Total fun a b => le (key a) (key b) := ⟨fun a b => Std.Total.total (key a) (key b)⟩
    have : IsTrans ρ fun a b => le (key a) (key b) := ⟨fun a b c => IsTrans.trans _ _ _⟩
    rw [List.pairwise_map]
    exact List.pairwise_insertionSort _ rows

section Read

variable {α β : Type} {f : α → Option β} {l : List α} {l' : List β}

theorem mapM_some_map : l.mapM f = some l' ↔ l.map f = l'.map some := by
  rw [mapM_some_iff, ← List.forall₂_eq_eq_eq, List.forall₂_map_left_iff, List.forall₂_map_right_iff]

theorem exists_mapM (h : ∀ a ∈ l, ∃ b, f a = some b) : ∃ l', l.mapM f = some l' := by
  refine ⟨l.filterMap f, mapM_some_map.mpr ?_⟩
  induction l with
  | nil => rfl
  | cons a l ih =>
      obtain ⟨b, hb⟩ := h a List.mem_cons_self
      rw [List.filterMap_cons_some hb, List.map_cons, List.map_cons, hb,
        ih fun x hx => h x (List.mem_cons_of_mem _ hx)]

theorem mem_mapM (h : l.mapM f = some l') {b : β} : b ∈ l' ↔ ∃ a ∈ l, f a = some b := by
  have hmem : b ∈ l' ↔ some b ∈ l'.map some := by simp
  rw [hmem, ← mapM_some_map.mp h, List.mem_map]

end Read

/-! ## 4. The last write -/

section Written

variable {σ α β : Type} (step : σ → α → σ) (write : σ → α → Option β)

/-- What the last of the steps that write leaves. -/
def written : σ → List α → Option β
  | _, [] => none
  | s, a :: as => (written (step s a) as).or (write s a)

variable {step write}

theorem written_append : ∀ (as as' : List α) (s : σ), written step write s (as ++ as') =
    (written step write (as.foldl step s) as').or (written step write s as)
  | [], as', s => by
      rw [List.nil_append, List.foldl_nil, written, Option.or_none]
  | a :: as, as', s => by
      rw [List.cons_append, written, written_append as as', List.foldl_cons, written, Option.or_assoc]

/-- **What a place holds is what has been written to it last.** -/
theorem get_foldl (get : σ → β) (hget : ∀ s a, get (step s a) = (write s a).getD (get s)) :
    ∀ (as : List α) (s : σ), get (as.foldl step s) = (written step write s as).getD (get s)
  | [], _ => rfl
  | a :: as, s => by
      rw [List.foldl_cons, get_foldl get hget as, hget, written]
      cases written step write (step s a) as <;> rfl

theorem written_eq_none {as : List α} {s : σ} : written step write s as = none ↔
    ∀ A a B, as = A ++ a :: B → write (A.foldl step s) a = none := by
  induction as generalizing s with
  | nil =>
      refine ⟨fun _ A a B h => ?_, fun _ => rfl⟩
      simp at h
  | cons b bs ih =>
      rw [written, Option.or_eq_none_iff, ih]
      constructor
      · rintro ⟨hrest, hfirst⟩ A a B h
        cases A with
        | nil =>
            obtain ⟨rfl, rfl⟩ := List.cons.inj h
            exact hfirst
        | cons a' A =>
            obtain ⟨rfl, hB⟩ := List.cons.inj h
            exact hrest A a B hB
      · intro h
        exact ⟨fun A a B hB => h (b :: A) a B (by rw [hB]; rfl), h [] b bs rfl⟩

/-- **The last write** is a step of the history, and none of the later ones writes. -/
theorem written_eq_some {as : List α} {s : σ} {b : β} : written step write s as = some b ↔
    ∃ A a B, as = A ++ a :: B ∧ write (A.foldl step s) a = some b ∧
      written step write (step (A.foldl step s) a) B = none := by
  constructor
  · intro h
    induction as generalizing s with
    | nil => cases h
    | cons a as ih =>
        rw [written, Option.or_eq_some_iff] at h
        rcases h with h | ⟨hnone, hlast⟩
        · obtain ⟨A, c, B, rfl, hc, hB⟩ := ih h
          exact ⟨a :: A, c, B, rfl, hc, hB⟩
        · exact ⟨[], a, as, rfl, hlast, hnone⟩
  · rintro ⟨A, a, B, rfl, ha, hB⟩
    rw [written_append, written, hB, ha]
    rfl

end Written

end AgentKernel.Lib
