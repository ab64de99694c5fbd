import PotatoDB.IndexOrder
import PotatoDB.ReferencesSound

/-!
# One physical order for each table

The flags of the indexes stay right under every statement. The files stay in the declared order as
long as no DROP INDEX makes another index the physical order of files that are not in its order.
-/

namespace PotatoDB

open Oplog Oplog.Prog
open Sorting

/-- A table with an index has one that is primary, and the others are logical only. -/
structure CatalogData.Flagged (c : CatalogData) : Prop where
  one : ∀ k i, c.indexes.lookup k = some i →
    ∃ k' i', c.indexes.lookup k' = some i' ∧ i'.tableName = i.tableName ∧ i'.primary = true
  unique : ∀ k i k' i', c.indexes.lookup k = some i → c.indexes.lookup k' = some i' → i.tableName = i'.tableName →
    i.primary = true → i'.primary = true → k = k'
  logical : ∀ k i, c.indexes.lookup k = some i → i.logicalOnly = !i.primary
  keyed : ∀ k i, c.indexes.lookup k = some i → i.name = k

/-- Every order that a table is declared with is the order of its files. -/
def IndexedStore.InDeclaredOrder (cmp : Value → Value → Ordering) (s : IndexedStore) : Prop :=
  ∀ table orders, s.declared.lookup table = some orders → ∀ order ∈ orders, ∀ f ∈ s.filesOf table, f.InOrder cmp order

/-- A primary index that is dropped leaves no other index of the table, or files in the order of the first one. -/
def IndexEvent.Safe (cmp : Value → Value → Ordering) (s : IndexedStore) : IndexEvent → Prop
  | dropIndex name => ∀ index next, s.catalog.indexes.lookup name = some index → index.primary = true →
    ((s.catalog.removeIndex name).indexesForTable index.tableName).head? = some next →
    ∀ f ∈ s.filesOf index.tableName, f.InOrder cmp next.columns
  | _ => True

inductive IndexedReached {cmp : Value → Value → Ordering} (writer : FileWriter cmp) : IndexedStore → Prop
  | new : IndexedReached writer .new
  | step {s : IndexedStore} {e : IndexEvent} (_ : IndexedReached writer s) (he : e.Safe cmp s) :
    IndexedReached writer (s.step writer e)

/-! ## Flags -/

namespace CatalogData

variable {c : CatalogData}

theorem lookup_removeIndex {name k : String} {i : IndexDef} (h : (c.removeIndex name).indexes.lookup k = some i) :
    k ≠ name ∧ c.indexes.lookup k = some i := by
  by_cases hk : k = name
  · rw [hk] at h
    cases (AList.lookup_erase name c.indexes).symm.trans h
  · exact ⟨hk, (AList.lookup_erase_ne hk).symm.trans h⟩

theorem lookup_addIndex {d : IndexDef} {k : String} {i : IndexDef}
    (h : ((c.demoteIndexes d.tableName).addIndex d).indexes.lookup k = some i) :
    k = d.name ∧ i = d ∨ k ≠ d.name ∧ ∃ i₀, c.indexes.lookup k = some i₀ ∧
      i = if i₀.tableName = d.tableName then { i₀ with primary := false, logicalOnly := true } else i₀ := by
  by_cases hk : k = d.name
  · rw [hk] at h
    exact .inl ⟨hk, Option.some.inj (h.symm.trans (AList.lookup_insert _))⟩
  · obtain ⟨i₀, hi₀, hi⟩ := Option.map_eq_some_iff.mp
      ((Map.lookup_mapValues _ _ _).symm.trans ((AList.lookup_insert_ne hk).symm.trans h))
    exact .inr ⟨hk, i₀, hi₀, hi.symm⟩

theorem Flagged.addIndex (h : c.Flagged) {name table : String} {columns : List IndexColumn}
    (hnew : c.indexes.lookup name = none) :
    ((c.demoteIndexes table).addIndex ⟨name, table, columns, false, true⟩).Flagged := by
  have hself : ((c.demoteIndexes table).addIndex ⟨name, table, columns, false, true⟩).indexes.lookup name =
      some ⟨name, table, columns, false, true⟩ := AList.lookup_insert _
  have hold : ∀ {k : String} {i : IndexDef}, c.indexes.lookup k = some i → i.tableName ≠ table →
      ((c.demoteIndexes table).addIndex ⟨name, table, columns, false, true⟩).indexes.lookup k = some i := by
    intro k i hi ht
    have hk : k ≠ name := by
      rintro rfl
      rw [hnew] at hi
      cases hi
    refine (AList.lookup_insert_ne hk).trans ((Map.lookup_mapValues _ _ _).trans ?_)
    rw [hi, Option.map_some, if_neg ht]
  constructor
  · intro k i hi
    rcases lookup_addIndex (d := ⟨name, table, columns, false, true⟩) hi with ⟨-, rfl⟩ | ⟨-, i₀, hi₀, rfl⟩
    · exact ⟨name, _, hself, rfl, rfl⟩
    · by_cases ht : i₀.tableName = table
      · refine ⟨name, _, hself, ?_, rfl⟩
        rw [if_pos ht]
        exact ht.symm
      · obtain ⟨k', i', hi', ht', hp⟩ := h.one k i₀ hi₀
        rw [if_neg ht]
        exact ⟨k', i', hold hi' (by rwa [ht']), ht', hp⟩
  · intro k i k' i' hi hi' ht hp hp'
    rcases lookup_addIndex (d := ⟨name, table, columns, false, true⟩) hi with ⟨hk, rfl⟩ | ⟨-, i₀, hi₀, rfl⟩
    · rcases lookup_addIndex (d := ⟨name, table, columns, false, true⟩) hi' with ⟨hk', -⟩ | ⟨-, j₀, hj₀, rfl⟩
      · exact hk.trans hk'.symm
      · split at ht
        · rename_i htable
          rw [if_pos htable] at hp'
          cases hp'
        · rename_i htable
          exact absurd ht.symm htable
    · rcases lookup_addIndex (d := ⟨name, table, columns, false, true⟩) hi' with ⟨-, rfl⟩ | ⟨-, j₀, hj₀, rfl⟩
      · split at ht
        · rename_i htable
          rw [if_pos htable] at hp
          cases hp
        · rename_i htable
          exact absurd ht htable
      · by_cases hti : i₀.tableName = table
        · rw [if_pos hti] at hp
          cases hp
        · by_cases htj : j₀.tableName = table
          · rw [if_pos htj] at hp'
            cases hp'
          · rw [if_neg hti] at ht hp
            rw [if_neg htj] at ht hp'
            exact h.unique k i₀ k' j₀ hi₀ hj₀ ht hp hp'
  · intro k i hi
    rcases lookup_addIndex (d := ⟨name, table, columns, false, true⟩) hi with ⟨-, rfl⟩ | ⟨-, i₀, hi₀, rfl⟩
    · rfl
    · split
      · rfl
      · exact h.logical k i₀ hi₀
  · intro k i hi
    rcases lookup_addIndex (d := ⟨name, table, columns, false, true⟩) hi with ⟨hk, rfl⟩ | ⟨-, i₀, hi₀, rfl⟩
    · exact hk.symm
    · have hname := h.keyed k i₀ hi₀
      split
      · exact hname
      · exact hname

theorem mem_indexesForTable {table : String} {i : IndexDef} :
    i ∈ c.indexesForTable table ↔ (∃ k, c.indexes.lookup k = some i) ∧ i.tableName = table := by
  unfold indexesForTable
  rw [List.mem_filter]
  refine and_congr ⟨Map.mem_values, fun ⟨k, hk⟩ => Map.values_mem hk⟩ ?_
  simp

/-- The promotion of an index: a primary one is there, or no index at all, or the first one becomes primary. -/
theorem promoteIndex_cases (c : CatalogData) (table : String) (hkeyed : ∀ k i, c.indexes.lookup k = some i → i.name = k) :
    (∃ k i, c.indexes.lookup k = some i ∧ i.tableName = table ∧ i.primary = true) ∧ c.promoteIndex table = c ∨
    (∀ k i, c.indexes.lookup k = some i → i.tableName ≠ table) ∧ c.promoteIndex table = c ∨
    ∃ next, (c.indexesForTable table).head? = some next ∧ c.indexes.lookup next.name = some next ∧ next.tableName = table ∧
      (∀ k i, c.indexes.lookup k = some i → i.tableName = table → i.primary = false) ∧
      ∀ k, (c.promoteIndex table).indexes.lookup k = (c.indexes.lookup k).map fun i =>
        if k = next.name then { i with primary := true, logicalOnly := false } else i := by
  unfold promoteIndex
  split
  · rename_i hany
    obtain ⟨i, hi, hp⟩ := List.any_eq_true.mp hany
    obtain ⟨⟨k, hk⟩, ht⟩ := mem_indexesForTable.mp hi
    exact .inl ⟨⟨k, i, hk, ht, hp⟩, rfl⟩
  · rename_i hany
    have hnone : ∀ k i, c.indexes.lookup k = some i → i.tableName = table → i.primary = false := by
      intro k i hi ht
      by_contra hp
      exact hany (List.any_eq_true.mpr ⟨i, mem_indexesForTable.mpr ⟨⟨k, hi⟩, ht⟩, by simpa using hp⟩)
    cases hhead : (c.indexesForTable table).head? with
    | none =>
      refine .inr (.inl ⟨fun k i hi ht => ?_, rfl⟩)
      have hmem := mem_indexesForTable.mpr ⟨⟨k, hi⟩, ht⟩
      rw [List.head?_eq_none_iff.mp hhead] at hmem
      cases hmem
    | some next =>
      obtain ⟨⟨k, hk⟩, ht⟩ := mem_indexesForTable.mp (List.mem_of_head? hhead)
      have hname := hkeyed k next hk
      refine .inr (.inr ⟨next, rfl, ?_, ht, hnone, fun k => Map.lookup_mapValues _ _ _⟩)
      rw [hname]
      exact hk

theorem Flagged.dropIndex (h : c.Flagged) {name : String} {index : IndexDef} (hindex : c.indexes.lookup name = some index) :
    ((c.removeIndex name).promoteIndex index.tableName).Flagged := by
  have hkeyed : ∀ k i, (c.removeIndex name).indexes.lookup k = some i → i.name = k :=
    fun k i hi => h.keyed k i (lookup_removeIndex hi).2
  have hunique : ∀ k i k' i', (c.removeIndex name).indexes.lookup k = some i →
      (c.removeIndex name).indexes.lookup k' = some i' → i.tableName = i'.tableName → i.primary = true →
      i'.primary = true → k = k' :=
    fun k i k' i' hi hi' => h.unique k i k' i' (lookup_removeIndex hi).2 (lookup_removeIndex hi').2
  have hlogical : ∀ k i, (c.removeIndex name).indexes.lookup k = some i → i.logicalOnly = !i.primary :=
    fun k i hi => h.logical k i (lookup_removeIndex hi).2
  -- the index that goes is of its own table only
  have hother : ∀ k i, (c.removeIndex name).indexes.lookup k = some i → i.tableName ≠ index.tableName →
      ∃ k' i', (c.removeIndex name).indexes.lookup k' = some i' ∧ i'.tableName = i.tableName ∧ i'.primary = true := by
    intro k i hi ht
    obtain ⟨k', i', hi', ht', hp⟩ := h.one k i (lookup_removeIndex hi).2
    refine ⟨k', i', (AList.lookup_erase_ne fun hk => ht ?_).trans hi', ht', hp⟩
    rw [hk, hindex] at hi'
    rw [← ht', ← Option.some.inj hi']
  rcases promoteIndex_cases (c.removeIndex name) index.tableName hkeyed with
    ⟨⟨k₀, i₀, hi₀, ht₀, hp₀⟩, heq⟩ | ⟨hnone, heq⟩ | ⟨next, -, hnext, htable, hnone, hlookup⟩
  · rw [heq]
    refine ⟨fun k i hi => ?_, hunique, hlogical, hkeyed⟩
    by_cases ht : i.tableName = index.tableName
    · exact ⟨k₀, i₀, hi₀, ht₀.trans ht.symm, hp₀⟩
    · exact hother k i hi ht
  · rw [heq]
    exact ⟨fun k i hi => hother k i hi (hnone k i hi), hunique, hlogical, hkeyed⟩
  · have hcases : ∀ {k : String} {i : IndexDef},
        ((c.removeIndex name).promoteIndex index.tableName).indexes.lookup k = some i →
        ∃ i₀, (c.removeIndex name).indexes.lookup k = some i₀ ∧
          i = if k = next.name then { i₀ with primary := true, logicalOnly := false } else i₀ := by
      intro k i hi
      rw [hlookup] at hi
      obtain ⟨i₀, hi₀, heq⟩ := Option.map_eq_some_iff.mp hi
      exact ⟨i₀, hi₀, heq.symm⟩
    have hpromoted : ((c.removeIndex name).promoteIndex index.tableName).indexes.lookup next.name =
        some { next with primary := true, logicalOnly := false } := by
      rw [hlookup, hnext, Option.map_some, if_pos rfl]
    constructor
    · intro k i hi
      obtain ⟨i₀, hi₀, rfl⟩ := hcases hi
      have hname : (if k = next.name then { i₀ with primary := true, logicalOnly := false } else i₀).tableName =
          i₀.tableName := by split <;> rfl
      rw [hname]
      by_cases ht : i₀.tableName = index.tableName
      · exact ⟨next.name, _, hpromoted, htable.trans ht.symm, rfl⟩
      · obtain ⟨k', i', hi', ht', hp⟩ := hother k i₀ hi₀ ht
        refine ⟨k', i', ?_, ht', hp⟩
        have hk' : k' ≠ next.name := by
          rintro rfl
          rw [hnext] at hi'
          refine ht ?_
          rw [← ht', ← Option.some.inj hi', htable]
        rw [hlookup, hi', Option.map_some, if_neg hk']
    · intro k i k' i' hi hi' ht hp hp'
      obtain ⟨i₀, hi₀, rfl⟩ := hcases hi
      obtain ⟨j₀, hj₀, rfl⟩ := hcases hi'
      have hprimary : ∀ {k : String} {i : IndexDef}, (c.removeIndex name).indexes.lookup k = some i → k ≠ next.name →
          i.primary = true → i.tableName ≠ next.tableName := by
        intro k i hi _ hp ht
        rw [hnone k i hi (ht.trans htable)] at hp
        cases hp
      by_cases hk : k = next.name
      · by_cases hk' : k' = next.name
        · exact hk.trans hk'.symm
        · rw [if_neg hk'] at ht hp'
          rw [if_pos hk] at ht
          rw [hk, hnext] at hi₀
          obtain rfl := Option.some.inj hi₀
          exact absurd ht.symm (hprimary hj₀ hk' hp')
      · by_cases hk' : k' = next.name
        · rw [if_neg hk] at ht hp
          rw [if_pos hk'] at ht
          rw [hk', hnext] at hj₀
          obtain rfl := Option.some.inj hj₀
          exact absurd ht (hprimary hi₀ hk hp)
        · rw [if_neg hk] at ht hp
          rw [if_neg hk'] at ht hp'
          exact hunique k i₀ k' j₀ hi₀ hj₀ ht hp hp'
    · intro k i hi
      obtain ⟨i₀, hi₀, rfl⟩ := hcases hi
      split
      · rfl
      · exact hlogical k i₀ hi₀
    · intro k i hi
      obtain ⟨i₀, hi₀, rfl⟩ := hcases hi
      have hname := hkeyed k i₀ hi₀
      split
      · exact hname
      · exact hname

theorem flagged_empty : CatalogData.empty.Flagged :=
  ⟨fun _ _ h => (nomatch h), fun _ _ _ _ h => (nomatch h), fun _ _ h => (nomatch h), fun _ _ h => (nomatch h)⟩

/-! ## Declared orders -/

theorem mem_sortOrders {table : String} {order : List IndexColumn} : order ∈ c.sortOrders table ↔
    ∃ k i, c.indexes.lookup k = some i ∧ i.tableName = table ∧ i.logicalOnly = false ∧ i.columns = order := by
  unfold sortOrders
  rw [List.mem_map]
  constructor
  · rintro ⟨i, hi, rfl⟩
    obtain ⟨hi, hl⟩ := List.mem_filter.mp hi
    obtain ⟨⟨k, hk⟩, ht⟩ := mem_indexesForTable.mp ((List.mem_insertionSort _).mp hi)
    exact ⟨k, i, hk, ht, by simpa using hl, rfl⟩
  · rintro ⟨k, i, hi, ht, hl, rfl⟩
    refine ⟨i, List.mem_filter.mpr ⟨(List.mem_insertionSort _).mpr (mem_indexesForTable.mpr ⟨⟨k, hi⟩, ht⟩), ?_⟩, rfl⟩
    simpa using hl

theorem length_le_one {α : Type} {l : List α} (hn : l.Nodup) (h : ∀ a ∈ l, ∀ b ∈ l, a = b) : l.length ≤ 1 := by
  cases l with
  | nil => simp
  | cons a l =>
    cases l with
    | nil => simp
    | cons b l => exact absurd (h a (by simp) b (by simp)) (List.ne_of_not_mem_cons (List.nodup_cons.mp hn).1)

theorem Flagged.sortOrders_length (h : c.Flagged) (table : String) : (c.sortOrders table).length ≤ 1 := by
  unfold sortOrders
  rw [List.length_map]
  have hperm := (List.perm_insertionSort
    (fun a b => (compareLex (compareOn (!·.primary)) (compareOn (·.name)) a b).isLE = true) (c.indexesForTable table)).filter
    (!·.logicalOnly)
  rw [hperm.length_eq]
  unfold indexesForTable Map.values
  rw [List.filter_filter, List.filter_map, List.length_map]
  refine length_le_one (c.indexes.nodupKeys.nodup.filter _) fun a ha b hb => ?_
  have hentry : ∀ {e : Sigma fun _ : String => IndexDef}, e ∈ c.indexes.entries.filter ((fun i =>
      (!i.logicalOnly) && decide (i.tableName = table)) ∘ Sigma.snd) →
      c.indexes.lookup e.1 = some e.2 ∧ e.2.tableName = table ∧ e.2.primary = true := by
    intro e he
    obtain ⟨he, hf⟩ := List.mem_filter.mp he
    have hlookup : c.indexes.lookup e.1 = some e.2 := AList.mem_lookup_iff.mpr he
    have hl := h.logical e.1 e.2 hlookup
    simp only [Function.comp_apply, hl, Bool.not_not, Bool.and_eq_true, decide_eq_true_eq] at hf
    exact ⟨hlookup, hf.2, hf.1⟩
  obtain ⟨hla, hta, hpa⟩ := hentry ha
  obtain ⟨hlb, htb, hpb⟩ := hentry hb
  obtain ⟨k, i⟩ := a
  obtain ⟨k', i'⟩ := b
  have hk : k = k' := h.unique k i k' i' hla hlb (hta.trans htb.symm) hpa hpb
  subst hk
  have hi : i = i' := Option.some.inj (hla.symm.trans hlb)
  rw [hi]

end CatalogData

/-! ## Statements -/

/-- What holds between the statements. -/
structure IndexedStore.Sound (cmp : Value → Value → Ordering) (s : IndexedStore) : Prop where
  flagged : s.catalog.Flagged
  short : ∀ table orders, s.declared.lookup table = some orders → orders.length ≤ 1
  complete : ∀ k i, s.catalog.indexes.lookup k = some i → i.logicalOnly = false →
    ∀ orders, s.declared.lookup i.tableName = some orders → i.columns ∈ orders
  registered : ∀ k i, s.catalog.indexes.lookup k = some i →
    (∃ orders, s.declared.lookup i.tableName = some orders) ∧ ∃ m, s.catalog.tables.lookup i.tableName = some m
  ordered : s.InDeclaredOrder cmp

namespace IndexedStore

variable {cmp : Value → Value → Ordering} {writer : FileWriter cmp} {s : IndexedStore}

theorem filesOf_insert (s : IndexedStore) (table : String) (files : List ParquetFile) (t : String) :
    filesOf { s with files := s.files.insert table files } t = if t = table then files else s.filesOf t := by
  unfold filesOf
  split
  · rename_i ht
    rw [ht, AList.lookup_insert]
    rfl
  · rename_i ht
    rw [AList.lookup_insert_ne ht]

/-- New files of a table in the order it is declared with. -/
theorem Sound.files (h : s.Sound cmp) {table : String} {files : List ParquetFile}
    (hf : ∀ orders, s.declared.lookup table = some orders → ∀ order ∈ orders, ∀ f ∈ files, f.InOrder cmp order) :
    Sound cmp { s with files := s.files.insert table files } := by
  refine ⟨h.flagged, h.short, h.complete, h.registered, fun t orders ht order ho f hmem => ?_⟩
  rw [filesOf_insert] at hmem
  split at hmem
  · rename_i heq
    rw [heq] at ht
    exact hf orders ht order ho f hmem
  · exact h.ordered t orders ht order ho f hmem

theorem Sound.insertInto (h : s.Sound cmp) (table : String) (rows : List Row) : (s.insertInto writer table rows).Sound cmp := by
  unfold IndexedStore.insertInto
  split
  · rename_i m orders hm horders
    split
    · exact h
    · refine h.files fun orders' ho' order ho f hf => ?_
      obtain rfl := Option.some.inj (horders.symm.trans ho')
      rcases List.mem_append.mp hf with hf | hf
      · exact h.ordered table orders horders order ho f hf
      · obtain ⟨file, hfile, rfl⟩ := List.mem_map.mp hf
        -- a table is declared with one order at most
        match orders, h.short table orders horders, ho with
        | [o], _, ho =>
          rw [List.mem_singleton.mp ho]
          exact writer.ordered o m.columnNames rows file hfile
        | o :: o' :: os, hshort, _ =>
          simp at hshort
  · exact h

theorem Sound.deleteFiles (h : s.Sound cmp) (table : String) : (s.deleteFiles table).Sound cmp :=
  h.files fun _ _ _ _ _ hf => absurd hf List.not_mem_nil

/-- A table is registered again, when its indexes have changed. -/
theorem Sound.recatalog (h : s.Sound cmp) {c : CatalogData} {table : String} (hflagged : c.Flagged)
    (hother : ∀ k i, c.indexes.lookup k = some i → i.tableName ≠ table → s.catalog.indexes.lookup k = some i)
    (htables : ∀ t m, s.catalog.tables.lookup t = some m → ∃ m', c.tables.lookup t = some m')
    (htable : ∃ m, c.tables.lookup table = some m)
    (hfiles : ∀ order ∈ c.sortOrders table, ∀ f ∈ s.filesOf table, f.InOrder cmp order) :
    (IndexedStore.register { s with catalog := c } table).Sound cmp := by
  have hdeclared : ∀ t, (IndexedStore.register { s with catalog := c } table).declared.lookup t =
      if t = table then some (c.sortOrders table) else s.declared.lookup t := by
    intro t
    split
    · rename_i ht
      rw [ht]
      exact AList.lookup_insert _
    · rename_i ht
      exact AList.lookup_insert_ne ht
  refine ⟨hflagged, fun t orders ht => ?_, fun k i hi hl orders ht => ?_, fun k i hi => ?_, fun t orders ht order ho f hf => ?_⟩
  · rw [hdeclared] at ht
    split at ht
    · rw [← Option.some.inj ht]
      exact hflagged.sortOrders_length table
    · exact h.short t orders ht
  · rw [hdeclared] at ht
    split at ht
    · rename_i hname
      rw [← Option.some.inj ht]
      exact CatalogData.mem_sortOrders.mpr ⟨k, i, hi, hname, hl, rfl⟩
    · rename_i hname
      exact h.complete k i (hother k i hi hname) hl orders ht
  · by_cases hname : i.tableName = table
    · rw [hname]
      exact ⟨⟨_, by rw [hdeclared, if_pos rfl]⟩, htable⟩
    · obtain ⟨⟨orders, ho⟩, m, hm⟩ := h.registered k i (hother k i hi hname)
      exact ⟨⟨orders, by rw [hdeclared, if_neg hname, ho]⟩, htables _ m hm⟩
  · rw [hdeclared] at ht
    split at ht
    · rename_i hname
      rw [← Option.some.inj ht] at ho
      rw [hname] at hf
      exact hfiles order ho f hf
    · exact h.ordered t orders ht order ho f hf

theorem Sound.rewriteTable (h : s.Sound cmp) (table : String) (rows : List Row) :
    (s.rewriteTable writer table rows).Sound cmp := by
  unfold IndexedStore.rewriteTable
  split
  · exact h
  · rename_i hsome
    obtain ⟨m, hm⟩ : ∃ m, s.catalog.tables.lookup table = some m := by
      simpa [Option.isNone_iff_eq_none, Option.ne_none_iff_exists'] using hsome
    refine Sound.insertInto ?_ table rows
    refine (h.deleteFiles table).recatalog h.flagged (fun k i hi _ => hi) (fun t m hm => ⟨m, hm⟩) ⟨m, hm⟩ fun order _ f hf => ?_
    rw [IndexedStore.deleteFiles, filesOf_insert, if_pos rfl] at hf
    exact absurd hf List.not_mem_nil

theorem Sound.createTable (h : s.Sound cmp) (m : TableMeta) :
    ((({ s with catalog := s.catalog.addTable m } : IndexedStore).deleteFiles m.name).register m.name).Sound cmp := by
  refine (h.deleteFiles m.name).recatalog (c := s.catalog.addTable m) ⟨h.flagged.one, h.flagged.unique, h.flagged.logical,
    h.flagged.keyed⟩ (fun k i hi _ => hi) (fun t m' hm' => ?_) ⟨m, AList.lookup_insert _⟩ fun order _ f hf => ?_
  · by_cases ht : t = m.name
    · rw [ht]
      exact ⟨m, AList.lookup_insert _⟩
    · exact ⟨m', (AList.lookup_insert_ne ht).trans hm'⟩
  · rw [IndexedStore.deleteFiles, filesOf_insert, if_pos rfl] at hf
    exact absurd hf List.not_mem_nil

theorem Sound.createIndex (h : s.Sound cmp) (create : CreateIndex) : (s.createIndex writer create).Sound cmp := by
  unfold IndexedStore.createIndex
  split
  · exact h
  · rename_i name _
    dsimp only
    split
    · exact h
    · rename_i hnew
      have hnew : s.catalog.indexes.lookup name = none := by simpa using hnew
      split
      · exact h
      · rename_i m hm
        split
        · exact h
        · split
          · exact h
          · refine Sound.insertInto ?_ _ _
            refine (h.deleteFiles create.tableName).recatalog (h.flagged.addIndex hnew) (fun k i hi ht => ?_)
              (fun t m hm => ⟨m, hm⟩) ⟨m, hm⟩ fun order _ f hf => ?_
            · rcases CatalogData.lookup_addIndex (d := ⟨name, create.tableName, create.columns, false, true⟩) hi with
                ⟨-, rfl⟩ | ⟨-, i₀, hi₀, rfl⟩
              · exact absurd rfl ht
              · by_cases ht₀ : i₀.tableName = create.tableName
                · rw [if_pos ht₀] at ht
                  exact absurd ht₀ ht
                · rw [if_neg ht₀]
                  exact hi₀
            · rw [IndexedStore.deleteFiles, filesOf_insert, if_pos rfl] at hf
              exact absurd hf List.not_mem_nil

theorem Sound.dropIndex (h : s.Sound cmp) {name : String} (hsafe : (IndexEvent.dropIndex name).Safe cmp s) :
    (s.dropIndex name).Sound cmp := by
  unfold IndexedStore.dropIndex
  cases hindex : s.catalog.indexes.lookup name with
  | none => exact h
  | some index =>
    obtain ⟨⟨orders, horders⟩, m, hm⟩ := h.registered name index hindex
    have htables : ((s.catalog.removeIndex name).promoteIndex index.tableName).tables = s.catalog.tables :=
      CatalogData.tables_promoteIndex _ _
    have hsome : (((s.catalog.removeIndex name).promoteIndex index.tableName).tables.lookup index.tableName).isSome = true := by
      rw [htables, hm]
      rfl
    dsimp only
    rw [if_pos hsome]
    -- an index that stays the physical order of the table was so before
    have hkept : ∀ k i, (s.catalog.removeIndex name).indexes.lookup k = some i → i.tableName = index.tableName →
        i.logicalOnly = false → ∀ f ∈ s.filesOf index.tableName, f.InOrder cmp i.columns := by
      intro k i hi ht hl f hf
      have hi := (CatalogData.lookup_removeIndex hi).2
      have hmem : i.columns ∈ orders := h.complete k i hi hl orders (by rw [ht, horders])
      exact h.ordered index.tableName orders horders i.columns hmem f hf
    have hcases := CatalogData.promoteIndex_cases (s.catalog.removeIndex name) index.tableName
      fun k i hi => h.flagged.keyed k i (CatalogData.lookup_removeIndex hi).2
    refine h.recatalog (h.flagged.dropIndex hindex) (fun k i hi ht => ?_) (fun t m hm => ⟨m, by rw [htables, hm]⟩)
      ⟨m, by rw [htables, hm]⟩ fun order ho f hf => ?_
    · rcases hcases with ⟨-, heq⟩ | ⟨-, heq⟩ | ⟨next, -, hnext, htable, -, hlookup⟩
      · rw [heq] at hi
        exact (CatalogData.lookup_removeIndex hi).2
      · rw [heq] at hi
        exact (CatalogData.lookup_removeIndex hi).2
      · rw [hlookup] at hi
        obtain ⟨i₀, hi₀, rfl⟩ := Option.map_eq_some_iff.mp hi
        by_cases hk : k = next.name
        · rw [hk, hnext] at hi₀
          obtain rfl := Option.some.inj hi₀
          rw [if_pos hk] at ht
          exact absurd htable ht
        · rw [if_neg hk]
          exact (CatalogData.lookup_removeIndex hi₀).2
    · obtain ⟨k, i, hi, ht, hl, rfl⟩ := CatalogData.mem_sortOrders.mp ho
      rcases hcases with ⟨-, heq⟩ | ⟨-, heq⟩ | ⟨next, hhead, hnext, htable, hnone, hlookup⟩
      · rw [heq] at hi
        exact hkept k i hi ht hl f hf
      · rw [heq] at hi
        exact hkept k i hi ht hl f hf
      · rw [hlookup] at hi
        obtain ⟨i₀, hi₀, rfl⟩ := Option.map_eq_some_iff.mp hi
        by_cases hk : k = next.name
        · rw [hk, hnext] at hi₀
          obtain rfl := Option.some.inj hi₀
          rw [if_pos hk]
          refine hsafe index next hindex ?_ hhead f hf
          obtain ⟨k', i', hi', ht', hp⟩ := h.flagged.one name index hindex
          by_cases hk' : k' = name
          · rw [hk', hindex] at hi'
            rw [Option.some.inj hi']
            exact hp
          · have hstays : (s.catalog.removeIndex name).indexes.lookup k' = some i' := (AList.lookup_erase_ne hk').trans hi'
            rw [hnone k' i' hstays ht'] at hp
            cases hp
        · rw [if_neg hk] at ht hl
          have hp := hnone k i₀ hi₀ ht
          have hlogical := h.flagged.logical k i₀ (CatalogData.lookup_removeIndex hi₀).2
          rw [hp, hl] at hlogical
          cases hlogical

theorem Sound.step (h : s.Sound cmp) {e : IndexEvent} (he : e.Safe cmp s) : (s.step writer e).Sound cmp := by
  cases e with
  | createTable name columns =>
    show (if (s.catalog.tables.lookup name).isSome then s else _ : IndexedStore).Sound cmp
    split
    · exact h
    · exact h.createTable ⟨name, columns, name, [], none, none, [], []⟩
  | createIndex create => exact h.createIndex create
  | dropIndex name => exact h.dropIndex he
  | insert table rows => exact h.insertInto table rows
  | rewrite table change => exact h.rewriteTable table _
  | prune table keep =>
    exact h.files fun orders ho order hmem f hf => h.ordered table orders ho order hmem f (List.mem_filter.mp hf).1
  | compact table => exact h.rewriteTable table _

theorem sound_new : IndexedStore.new.Sound cmp :=
  ⟨CatalogData.flagged_empty, fun _ _ h => (nomatch h), fun _ _ h => (nomatch h), fun _ _ h => (nomatch h),
    fun _ _ h => (nomatch h)⟩

end IndexedStore

/-- **Flags and files agree after every run in which no DROP INDEX declares an order that the files are not in.** -/
theorem indexes_ordered (cmp : Value → Value → Ordering) (writer : FileWriter cmp) (s : IndexedStore)
    (h : IndexedReached writer s) : s.catalog.Flagged ∧ s.InDeclaredOrder cmp := by
  have hsound : s.Sound cmp := by
    induction h with
    | new => exact IndexedStore.sound_new
    | step _ he ih => exact ih.step he
  exact ⟨hsound.flagged, hsound.ordered⟩

/-! ## A writer that sorts -/

theorem transCmp_rowOrder {cmp : Value → Value → Ordering} (h : Std.TransCmp cmp) (columns : List String)
    (order : List IndexColumn) : Std.TransCmp (rowOrder cmp columns order) := by
  refine transCmp_lex fun c hc => ?_
  obtain ⟨column, -, rfl⟩ := List.mem_map.mp hc
  exact transCmp_on _ (transCmp_directed _ (transCmp_absentLast _ h))

/-- One file for an INSERT, sorted by the order that is declared. -/
def FileWriter.sorting {cmp : Value → Value → Ordering} (h : Std.TransCmp cmp) : FileWriter cmp where
  write
    | [], _, rows => [rows]
    | order :: _, columns, rows => [sortBy (rowOrder cmp columns order) rows]
  ordered order columns rows file hf := by
    rw [List.mem_singleton.mp hf]
    exact inOrder_sortBy (transCmp_rowOrder h columns order) rows

/-- Texts by their characters. -/
def Value.codes : Value → List Nat
  | text s => s.toList.map Char.toNat
  | _ => []

def textWriter : FileWriter (compareOn Value.codes) := .sorting inferInstance

def indexedTable : List IndexEvent :=
  [.createTable "t" [⟨"a", "TEXT", true⟩, ⟨"b", "TEXT", true⟩],
    .createIndex ⟨some "by_b", "t", [⟨"b", true⟩], false, "CREATE INDEX by_b ON t (b)"⟩,
    .createIndex ⟨some "by_a", "t", [⟨"a", true⟩], false, "CREATE INDEX by_a ON t (a)"⟩,
    .insert "t" [[.text "2", .text "1"], [.text "1", .text "2"]]]

theorem IndexedReached.without_dropIndex {cmp : Value → Value → Ordering} {writer : FileWriter cmp} {es : List IndexEvent} :
    ∀ {s : IndexedStore}, IndexedReached writer s → (∀ name, IndexEvent.dropIndex name ∉ es) →
      IndexedReached writer (es.foldl (IndexedStore.step writer) s) := by
  induction es with
  | nil => exact fun h _ => h
  | cons e es ih =>
    intro s h hes
    refine ih (.step h ?_) fun name hmem => hes name (List.mem_cons_of_mem _ hmem)
    cases e with
    | dropIndex name => exact absurd List.mem_cons_self (hes name)
    | _ => trivial

def indexedStore : IndexedStore := indexedTable.foldl (IndexedStore.step textWriter) .new

/-- A logical index is dropped. -/
theorem indexes_ordered_dropped : (indexedStore.dropIndex "by_b").InDeclaredOrder (compareOn Value.codes) := by
  have hreached : IndexedReached textWriter indexedStore := IndexedReached.new.without_dropIndex (by simp [indexedTable])
  have hlogical : indexedStore.catalog.indexes.lookup "by_b" = some ⟨"by_b", "t", [⟨"b", true⟩], true, false⟩ := by decide +kernel
  have hsafe : (IndexEvent.dropIndex "by_b").Safe (compareOn Value.codes) indexedStore := by
    intro index next hindex hp
    rw [hlogical] at hindex
    rw [← Option.some.inj hindex] at hp
    cases hp
  exact (indexes_ordered _ textWriter _ (.step hreached hsafe)).2

/-- The physical index is dropped, and the other one is declared for a file that is not in its order. -/
theorem drop_index_declares_wrong_order : ¬ (indexedStore.dropIndex "by_a").InDeclaredOrder (compareOn Value.codes) := by
  intro h
  have hdeclared : (indexedStore.dropIndex "by_a").declared.lookup "t" =
      some [[⟨"b", true⟩]] := by decide +kernel
  have hfiles : (indexedStore.dropIndex "by_a").filesOf "t" =
      [⟨["a", "b"], [[.text "1", .text "2"], [.text "2", .text "1"]], 0⟩] := by decide +kernel
  have hf := h "t" _ hdeclared _ List.mem_cons_self ⟨["a", "b"], [[.text "1", .text "2"], [.text "2", .text "1"]], 0⟩
    (by rw [hfiles]; exact List.mem_cons_self)
  revert hf
  unfold ParquetFile.InOrder
  decide +kernel

/-! ## The handlers -/

section
variable {env : Env} {cmp : Value → Value → Ordering} {writer : FileWriter cmp} {s : IndexedStore} {db : Db}

theorem catalog_insertInto (s : IndexedStore) (table : String) (rows : List Row) :
    (s.insertInto writer table rows).catalog = s.catalog := by
  unfold IndexedStore.insertInto
  split
  · split <;> rfl
  · rfl

/-- DROP INDEX leaves the catalog that the model of its files has. -/
theorem catalog_dropIndex (h : s.catalog = db.catalog) (name : String) (ifExists : Bool) :
    ((handleDropIndex env name ifExists).final db).catalog = (s.dropIndex name).catalog := by
  rw [catalog_handleDropIndex, IndexedStore.dropIndex, h]
  cases db.catalog.indexes.lookup name with
  | none => exact h.symm
  | some index =>
    dsimp only
    split <;> rfl

/-- So does CREATE INDEX that succeeds. -/
theorem catalog_createIndex (h : s.catalog = db.catalog) (create : CreateIndex) :
    Yields (handleCreateIndex env create) db fun _ t => t.catalog = (s.createIndex writer create).catalog := by
  refine (catalog_handleCreateIndex create).mono ?_
  rintro _ t ⟨name, hname, ⟨⟨i, hi⟩, heq⟩ | ⟨hnew, hcols, ⟨m, hm, hmem⟩, heq⟩⟩
  · rw [heq, IndexedStore.createIndex, hname]
    simp [h, hi]
  · have hany : create.columns.any (fun c => !m.columnNames.contains c.name) = false := by
      rw [List.any_eq_false]
      intro c hc
      simpa using hmem c.name (List.mem_map.mpr ⟨c, hc, rfl⟩)
    rw [heq, IndexedStore.createIndex, hname]
    have hempty : create.columns.isEmpty = false := by simpa using hcols
    simp only [h, hnew, hm, hany, hempty, Option.isSome_none, Bool.false_eq_true, if_false]
    rw [catalog_insertInto]
    simp only [IndexedStore.register, IndexedStore.deleteFiles, h]

end

end PotatoDB
