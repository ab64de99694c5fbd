import PotatoDB.Terminal
import PotatoDB.TextParsersSound

/-!
# What the terminal keeps

The selected row and table are rows and tables that there are, the columns are not scrolled out of sight, and the popup of
the export opens on results only, whatever the keys, the clicks and the answers of the database.
-/

namespace PotatoDB.Tui

open Texts (CaseMapping)

/-! ## The editor -/

namespace App

/-- The editor has left the tables alone and shows no completion. -/
structure Beside (a b : App) : Prop where
  tables : b.tables = a.tables
  selectedTable : b.selectedTable = a.selectedTable
  completion : b.completion = none

/-- An operation of the editor that changes lines, the cursor and the position in the history only. -/
def KeepsBeside (op : App → Option App) : Prop := ∀ a b, a.completion = none → op a = some b → Beside a b

theorem keepsBeside_splitLine : KeepsBeside splitLine := by
  intro a b h hb
  simp only [splitLine, Option.bind_eq_bind, Option.bind_eq_some_iff, Option.some.injEq] at hb
  obtain ⟨line, _, rest, _, kept, _, rfl⟩ := hb
  exact ⟨rfl, rfl, h⟩

theorem keepsBeside_deleteToStart : KeepsBeside deleteToStart := by
  intro a b h hb
  simp only [deleteToStart, Option.bind_eq_bind, Option.bind_eq_some_iff, Option.some.injEq] at hb
  obtain ⟨line, _, rest, _, rfl⟩ := hb
  exact ⟨rfl, rfl, h⟩

theorem keepsBeside_deleteToEnd : KeepsBeside deleteToEnd := by
  intro a b h hb
  simp only [deleteToEnd, Option.bind_eq_bind, Option.bind_eq_some_iff, Option.some.injEq] at hb
  obtain ⟨line, _, kept, _, rfl⟩ := hb
  exact ⟨rfl, rfl, h⟩

theorem keepsBeside_toEnd : KeepsBeside toEnd := by
  intro a b h hb
  simp only [toEnd, Option.bind_eq_bind, Option.bind_eq_some_iff, Option.some.injEq] at hb
  obtain ⟨line, _, rfl⟩ := hb
  exact ⟨rfl, rfl, h⟩

theorem keepsBeside_typeChar (c : Char) : KeepsBeside (typeChar · c) := by
  intro a b h hb
  simp only [typeChar, Option.bind_eq_bind, Option.bind_eq_some_iff, Option.some.injEq] at hb
  obtain ⟨line, _, line', _, rfl⟩ := hb
  exact ⟨rfl, rfl, h⟩

theorem keepsBeside_moveTo (row : Nat) : KeepsBeside (moveTo · row) := by
  intro a b h hb
  simp only [moveTo, Option.bind_eq_bind, Option.bind_eq_some_iff, Option.some.injEq] at hb
  obtain ⟨line, _, rfl⟩ := hb
  exact ⟨rfl, rfl, h⟩

theorem keepsBeside_up : KeepsBeside up := by
  intro a b h hb
  unfold up at hb
  split_ifs at hb
  · exact keepsBeside_moveTo _ a b h hb
  · cases hb
    exact ⟨rfl, rfl, h⟩
  · simp only [Option.bind_eq_bind, Option.bind_eq_some_iff, Option.some.injEq] at hb
    obtain ⟨entry, _, last, _, rfl⟩ := hb
    exact ⟨rfl, rfl, h⟩

theorem keepsBeside_down : KeepsBeside down := by
  intro a b h hb
  unfold down at hb
  split_ifs at hb
  · exact keepsBeside_moveTo _ a b h hb
  · split at hb
    · cases hb
      exact ⟨rfl, rfl, h⟩
    · split_ifs at hb
      · simp only [Option.bind_eq_bind, Option.bind_eq_some_iff, Option.some.injEq] at hb
        obtain ⟨entry, _, rfl⟩ := hb
        exact ⟨rfl, rfl, h⟩
      · cases hb
        exact ⟨rfl, rfl, rfl⟩

theorem keepsBeside_left : KeepsBeside left := by
  intro a b h hb
  unfold left at hb
  split_ifs at hb
  · cases hb
    exact ⟨rfl, rfl, h⟩
  · simp only [Option.bind_eq_bind, Option.bind_eq_some_iff, Option.some.injEq] at hb
    obtain ⟨line, _, rfl⟩ := hb
    exact ⟨rfl, rfl, h⟩
  · cases hb
    exact ⟨rfl, rfl, h⟩

theorem keepsBeside_right : KeepsBeside right := by
  intro a b h hb
  simp only [right, Option.bind_eq_bind, Option.bind_eq_some_iff] at hb
  obtain ⟨line, _, hb⟩ := hb
  split_ifs at hb <;> cases hb <;> exact ⟨rfl, rfl, h⟩

theorem keepsBeside_backspace : KeepsBeside backspace := by
  intro a b h hb
  unfold backspace at hb
  split_ifs at hb
  · simp only [Option.bind_eq_bind, Option.bind_eq_some_iff, Option.some.injEq] at hb
    obtain ⟨line, _, line', _, rfl⟩ := hb
    exact ⟨rfl, rfl, h⟩
  · simp only [Option.bind_eq_bind, Option.bind_eq_some_iff, Option.some.injEq] at hb
    obtain ⟨removed, _, line, _, rfl⟩ := hb
    exact ⟨rfl, rfl, h⟩
  · cases hb
    exact ⟨rfl, rfl, h⟩

theorem keepsBeside_delete : KeepsBeside delete := by
  intro a b h hb
  simp only [delete, Option.bind_eq_bind, Option.bind_eq_some_iff] at hb
  obtain ⟨line, _, hb⟩ := hb
  split_ifs at hb
  · simp only [Option.bind_eq_some_iff, Option.some.injEq] at hb
    obtain ⟨line', _, rfl⟩ := hb
    exact ⟨rfl, rfl, h⟩
  · simp only [Option.bind_eq_some_iff, Option.some.injEq] at hb
    obtain ⟨next, _, rfl⟩ := hb
    exact ⟨rfl, rfl, h⟩
  · cases hb
    exact ⟨rfl, rfl, h⟩

theorem beside_cleared (a : App) (sql : List Char) : Beside a (a.saveHistoryEntry sql).clearInput := by
  unfold saveHistoryEntry
  dsimp only
  split_ifs <;> exact ⟨rfl, rfl, rfl⟩

theorem beside_tryExecute {a : App} (h : a.completion = none) : Beside a a.tryExecute.1 := by
  unfold tryExecute
  dsimp only
  split_ifs
  · exact ⟨rfl, rfl, h⟩
  · exact beside_cleared a _
  · exact beside_cleared a _
  · exact beside_cleared a _

/-- A key of the editor leaves the tables alone and closes the completion. -/
theorem beside_handleQueryKey {a : App} {modifiers : KeyModifiers} {code : KeyCode} {r : App × Action}
    (hr : a.handleQueryKey modifiers code = some r) : Beside a r.1 := by
  have hdone : ∀ {op : App → Option App}, KeepsBeside op → ((op a.dismissCompletion).map fun a => (a, Action.none)) = some r → Beside a r.1 := by
    intro op hop h
    obtain ⟨b, hb, rfl⟩ := Option.map_eq_some_iff.mp h
    obtain ⟨htables, hselected, hcompletion⟩ := hop a.dismissCompletion b rfl hb
    exact ⟨htables, hselected, hcompletion⟩
  have hsame : ∀ {b : App} {action : Action}, Beside a.dismissCompletion b → some (b, action) = some r → Beside a r.1 := by
    intro b action hb h
    cases h
    exact ⟨hb.tables, hb.selectedTable, hb.completion⟩
  have hdismissed : Beside a.dismissCompletion a.dismissCompletion := ⟨rfl, rfl, rfl⟩
  have hcleared : Beside a.dismissCompletion a.dismissCompletion.clearInput := ⟨rfl, rfl, rfl⟩
  have hhome : Beside a.dismissCompletion { a.dismissCompletion with cursorCol := 0 } := ⟨rfl, rfl, rfl⟩
  have hexecuted : some a.dismissCompletion.tryExecute = some r → Beside a r.1 := by
    have htry := beside_tryExecute (a := a.dismissCompletion) rfl
    exact hsame htry
  unfold handleQueryKey at hr
  dsimp only at hr
  cases code with
  | enter =>
    dsimp only at hr
    split_ifs at hr
    · exact hexecuted hr
    · exact hexecuted hr
    · exact hdone keepsBeside_splitLine hr
  | f n =>
    dsimp only at hr
    split_ifs at hr
    · exact hexecuted hr
    · exact hsame hdismissed hr
  | char c =>
    cases modifiers with
    | control =>
      dsimp only at hr
      split_ifs at hr
      · exact hexecuted hr
      · exact hdone keepsBeside_deleteToStart hr
      · exact hdone keepsBeside_deleteToEnd hr
      · exact hsame hcleared hr
      · split at hr
        · exact hsame hdismissed hr
        · exact hsame hdismissed hr
      · exact hsame hdismissed hr
    | none => exact hdone (keepsBeside_typeChar c) hr
    | shift => exact hdone (keepsBeside_typeChar c) hr
    | alt => exact hsame hdismissed hr
    | mixed => exact hsame hdismissed hr
  | up => exact hdone keepsBeside_up hr
  | down => exact hdone keepsBeside_down hr
  | left => exact hdone keepsBeside_left hr
  | right => exact hdone keepsBeside_right hr
  | home => exact hsame hhome hr
  | endKey => exact hdone keepsBeside_toEnd hr
  | backspace => exact hdone keepsBeside_backspace hr
  | delete => exact hdone keepsBeside_delete hr
  | other => exact hsame hdismissed hr

/-- The completion that is shown is one of the candidates. -/
def Completes (a : App) : Prop := ∀ comp, a.completion = some comp → comp.index < comp.candidates.length

theorem Beside.completes {a b : App} (h : Beside a b) : Completes b := by
  intro comp hcomp
  rw [h.completion] at hcomp
  cases hcomp

theorem completes_tabComplete {m : CaseMapping} {a b : App} (hb : a.tabComplete m = some b) (h : Completes a) :
    b.tables = a.tables ∧ b.selectedTable = a.selectedTable ∧ Completes b := by
  unfold tabComplete at hb
  split at hb
  · rename_i comp hcomp
    split_ifs at hb with hnone
    · cases hb
      exact ⟨rfl, rfl, fun comp hcomp => by cases hcomp⟩
    · simp only [Option.bind_eq_bind, Option.bind_eq_some_iff, Option.some.injEq] at hb
      obtain ⟨line, _, line', _, next, _, line'', _, rfl⟩ := hb
      refine ⟨rfl, rfl, ?_⟩
      intro comp' hcomp'
      cases hcomp'
      exact Nat.mod_lt _ (List.length_pos_iff.mpr hnone)
  · simp only [Option.bind_eq_bind, Option.bind_eq_some_iff] at hb
    obtain ⟨⟨startCol, word⟩, _, hb⟩ := hb
    dsimp only at hb
    split_ifs at hb
    · cases hb
      exact ⟨rfl, rfl, h⟩
    · split at hb
      · cases hb
        exact ⟨rfl, rfl, h⟩
      · simp only [Option.bind_eq_some_iff, Option.some.injEq] at hb
        obtain ⟨line, _, line', _, rfl⟩ := hb
        refine ⟨rfl, rfl, ?_⟩
        intro comp hcomp
        cases hcomp
        exact Nat.succ_pos _

end App

/-! ## The terminal -/

/-- The headers of the listings, which leave the columns scrolled. -/
def listingHeaders : List (List (List Char)) :=
  [["view_name".toList], ["index_name".toList, "table_name".toList], ["sequence_name".toList], ["function_name".toList],
    ["user_name".toList, "roles".toList]]

namespace Terminal

/-- What holds of every state of the terminal. -/
structure Sound (t : Terminal) : Prop where
  row : t.results.rows ≠ [] → ∀ i, t.selected = some i → i < t.results.rows.length
  table : t.app.selectedTable ≤ t.app.tables.length - 1
  cells : ∀ row ∈ t.results.rows, row.length = t.results.headers.length
  columns : t.results.headers ∉ listingHeaders → t.results.headers ≠ [] → t.hScroll < t.results.headers.length
  exports : t.popup = .exporting → t.results.headers ≠ []
  format : t.exportFormat < exportFormats.length
  completion : t.app.Completes
  message : t.message.isSome → t.results.headers = []

variable {t : Terminal}

theorem Sound.select (h : t.Sound) {i : Nat} (hi : t.results.rows ≠ [] → i < t.results.rows.length) : (t.select i).Sound :=
  { h with row := fun hne j hj => by cases hj; exact hi hne }

theorem Sound.up (h : t.Sound) (n : Nat) : (t.select (t.selectedOr - n)).Sound := by
  refine h.select fun hne => ?_
  have hpos := List.length_pos_iff.mpr hne
  unfold selectedOr
  cases hs : t.selected with
  | none => simpa using hpos
  | some i =>
    have hi := h.row hne i hs
    simp only [Option.getD_some]
    omega

theorem Sound.moveDown (h : t.Sound) (n : Nat) : (t.moveDown n).Sound := by
  refine h.select fun hne => ?_
  have hpos := List.length_pos_iff.mpr hne
  cases t.selected with
  | none => simpa using hpos
  | some i =>
    simp only [Option.elim_some]
    omega

theorem Sound.selectTable (h : t.Sound) {i : Nat} (hi : i ≤ t.app.tables.length - 1) :
    Sound { t with app := { t.app with selectedTable := i } } :=
  { h with table := hi }

theorem Sound.sidebarKey (h : t.Sound) (key : Key) : (t.handleSidebarKey key).1.Sound := by
  have hup := h.selectTable (i := t.app.selectedTable - 1) (Nat.le_trans (Nat.sub_le _ _) h.table)
  have hdown := h.selectTable (i := min (t.app.selectedTable + 1) (t.app.tables.length - 1)) (Nat.min_le_right _ _)
  unfold handleSidebarKey
  dsimp only
  split
  · dsimp only
    split_ifs
    · exact h
    · exact hup
  · dsimp only
    split_ifs
    · exact h
    · exact hdown
  · split <;> exact h
  · exact h

theorem Sound.resultsKey (h : t.Sound) (key : Key) : (t.handleResultsKey key).Sound := by
  unfold handleResultsKey
  split
  · exact h.up 1
  · exact h.moveDown 1
  · refine { h with columns := fun hlisting hne => ?_ }
    exact Nat.lt_of_le_of_lt (Nat.sub_le _ _) (h.columns hlisting hne)
  · refine { h with columns := fun hlisting hne => ?_ }
    have hpos := List.length_pos_iff.mpr hne
    exact Nat.lt_of_le_of_lt (Nat.min_le_right _ _) (Nat.sub_lt hpos Nat.one_pos)
  · exact h.up _
  · exact h.moveDown _
  · exact h.select fun hne => List.length_pos_iff.mpr hne
  · split_ifs
    · exact h
    · exact h.select fun hne => Nat.sub_lt (List.length_pos_iff.mpr hne) Nat.one_pos
  · exact h

theorem Sound.closed (h : t.Sound) : Sound { t with popup := .none } := { h with exports := fun hpopup => by cases hpopup }

theorem Sound.exportKey (h : t.Sound) (key : Key) : (t.handleExportKey key).1.Sound := by
  unfold handleExportKey
  split
  · exact h.closed
  · exact { h with format := Nat.mod_lt _ (by decide) }
  · exact h.closed
  · exact { h with }
  · exact { h with }
  · exact h

theorem Sound.edited (h : t.Sound) {a : App} (htables : a.tables = t.app.tables) (hselected : a.selectedTable = t.app.selectedTable)
    (hcompletes : a.Completes) : Sound { t with app := a } :=
  { h with table := by simpa only [htables, hselected] using h.table, completion := hcompletes }

/-! ## Keys and clicks -/

theorem Sound.popped (h : t.Sound) {popup : Popup} (hpopup : popup = .exporting → t.results.headers ≠ []) :
    Sound { t with popup := popup } :=
  { h with exports := hpopup }

theorem Sound.cleared (h : t.Sound) (hopen : t.popup ≠ .exporting) : t.clearResults.Sound :=
  { h with
    row := fun hne => absurd rfl hne
    cells := by simp [clearResults]
    columns := fun _ hne => absurd rfl hne
    exports := fun hpopup => absurd hpopup hopen
    message := fun _ => rfl }

theorem Sound.queryKey (h : t.Sound) {modifiers : KeyModifiers} {code : KeyCode} {r : App × Action}
    (hr : t.app.handleQueryKey modifiers code = some r) : Sound { t with app := r.1 } := by
  have hbeside := App.beside_handleQueryKey hr
  exact h.edited hbeside.tables hbeside.selectedTable hbeside.completes

theorem Sound.tabKey (h : t.Sound) {m : CaseMapping} {a : App} (ha : t.app.tabComplete m = some a) : Sound { t with app := a } := by
  obtain ⟨htables, hselected, hcompletes⟩ := App.completes_tabComplete ha h.completion
  exact h.edited htables hselected hcompletes

theorem Sound.focused (h : t.Sound) (focus : Focus) : Sound { t with focus := focus } := { h with }

theorem Sound.focusedKey (h : t.Sound) {modifiers : KeyModifiers} {key : Key} {r : Terminal × Command}
    (hr : t.focusedKey modifiers key = some r) : r.1.Sound := by
  unfold Terminal.focusedKey at hr
  split at hr
  · obtain ⟨r', hr', rfl⟩ := Option.map_eq_some_iff.mp hr
    exact h.queryKey hr'
  · cases hr
    exact h.sidebarKey key
  · cases hr
    exact h.resultsKey key

theorem Sound.helpKey (h : t.Sound) (key : Key) : (t.helpKey key).Sound := by
  unfold Terminal.helpKey
  split
  · exact h.closed
  · exact h.closed
  · exact h.closed
  · exact h

/-- What a key of the whole terminal does. -/
inductive Owned (t : Terminal) : Terminal × Command → Prop
  | cleared : Owned t (t.clearResults, .none)
  | left : Owned t (t, .quit)
  | shown (focus : Focus) (popup : Popup) (h : popup = .exporting → t.results.headers ≠ []) :
      Owned t ({ t with focus := focus, popup := popup }, .none)

/-- A key is one of the terminal, or goes to the part in focus; the tab of the editor completes a word. -/
theorem handleKey_cases (m : CaseMapping) (modifiers : KeyModifiers) (key : Key) (hopen : t.popup = .none) :
    t.handleKey m modifiers key = t.focusedKey modifiers key ∨
      (t.focus = .query ∧ t.handleKey m modifiers key = (t.app.tabComplete m).map fun a => ({ t with app := a }, .none)) ∨
        ∃ r, t.handleKey m modifiers key = some r ∧ t.Owned r := by
  have howned : ∀ {o : Option (Terminal × Command)} {r : Terminal × Command}, o = some r → t.Owned r →
      o = t.focusedKey modifiers key ∨
        (t.focus = .query ∧ o = (t.app.tabComplete m).map fun a => ({ t with app := a }, .none)) ∨ ∃ r, o = some r ∧ t.Owned r := by
    intro o r ho hr
    exact .inr (.inr ⟨r, ho, hr⟩)
  have hsame : t.Owned (t, .none) := .shown t.focus t.popup (by simp [hopen])
  have hhelp : t.Owned ({ t with popup := .help }, .none) := .shown t.focus .help (by simp)
  have hhelp' : ¬t.popup = .help := by simp [hopen]
  have hexport : ¬t.popup = .exporting := by simp [hopen]
  unfold Terminal.handleKey
  rw [if_neg hhelp', if_neg hexport]
  cases key with
  | code c =>
    cases c with
    | char c =>
      dsimp only
      split_ifs with _ _ _ _ hsaved
      · exact howned rfl .left
      · exact howned rfl .left
      · exact howned rfl hhelp
      · exact howned rfl (.shown t.focus .exporting fun _ => hsaved.2)
      · exact howned rfl hsame
      · exact howned rfl .cleared
      · exact .inl rfl
    | f n =>
      dsimp only
      split_ifs
      · exact howned rfl hhelp
      · exact .inl rfl
    | enter => exact .inl rfl
    | up => exact .inl rfl
    | down => exact .inl rfl
    | left => exact .inl rfl
    | right => exact .inl rfl
    | home => exact .inl rfl
    | endKey => exact .inl rfl
    | backspace => exact .inl rfl
    | delete => exact .inl rfl
    | other => exact .inl rfl
  | tab =>
    dsimp only
    split_ifs with hfocus
    · exact .inr (.inl ⟨hfocus, rfl⟩)
    · exact howned rfl (.shown t.focus.next t.popup (by simp [hopen]))
  | backTab =>
    dsimp only
    split_ifs
    · exact howned rfl (.shown t.focus.prev t.popup (by simp [hopen]))
    · exact .inl rfl
  | esc => exact howned rfl (.shown t.focus .none (by simp))
  | pageUp => exact .inl rfl
  | pageDown => exact .inl rfl

theorem Sound.owned (h : t.Sound) (hopen : t.popup = .none) {r : Terminal × Command} (hr : t.Owned r) : r.1.Sound := by
  cases hr with
  | cleared => exact h.cleared (by simp [hopen])
  | left => exact h
  | shown focus popup hpopup => exact (h.focused focus).popped hpopup

theorem Sound.handleKey (h : t.Sound) {m : CaseMapping} {modifiers : KeyModifiers} {key : Key} {r : Terminal × Command}
    (hr : t.handleKey m modifiers key = some r) : r.1.Sound := by
  cases hpopup : t.popup with
  | none =>
    obtain heq | ⟨_, heq⟩ | ⟨r', heq, howned⟩ := handleKey_cases m modifiers key hpopup
    · exact h.focusedKey (heq ▸ hr)
    · rw [heq] at hr
      obtain ⟨a, ha, rfl⟩ := Option.map_eq_some_iff.mp hr
      exact h.tabKey ha
    · rw [heq] at hr
      cases hr
      exact h.owned hpopup howned
  | help =>
    unfold Terminal.handleKey at hr
    rw [if_pos hpopup] at hr
    cases hr
    exact h.helpKey key
  | exporting =>
    unfold Terminal.handleKey at hr
    rw [if_neg (by simp [hpopup]), if_pos hpopup] at hr
    cases hr
    exact h.exportKey key

theorem Sound.handleMouse (h : t.Sound) (mouse : Mouse) : (t.handleMouse mouse).Sound := by
  unfold Terminal.handleMouse
  split
  · dsimp only
    split_ifs with _ hrow _ hrow
    · exact (h.selectTable (Nat.le_sub_one_of_lt hrow)).focused .sidebar
    · exact h.focused .sidebar
    · exact (h.select fun _ => hrow).focused .results
    · exact h.focused .results
    · exact h.focused .query
    · exact h
  · split_ifs
    · exact h.up 3
    · exact h
  · split_ifs
    · exact h.moveDown 3
    · exact h
  · exact h

end Terminal

/-! ## Answers -/

/-- The batches have the columns of the first one. -/
def Answer.Rectangular : Answer → Prop
  | .records batches => ∀ b ∈ batches, ∀ row ∈ b.rows, row.length = (batches.head?.elim [] ShownBatch.fields).length
  | _ => True

theorem cells_fromBatches {batches : List ShownBatch}
    (h : ∀ b ∈ batches, ∀ row ∈ b.rows, row.length = (batches.head?.elim [] ShownBatch.fields).length) :
    ∀ row ∈ (QueryResults.fromBatches batches).rows, row.length = (QueryResults.fromBatches batches).headers.length := by
  intro row hrow
  unfold QueryResults.fromBatches at hrow ⊢
  dsimp only at hrow ⊢
  split_ifs at hrow
  · cases hrow
  · obtain ⟨b, hb, hrow⟩ := List.mem_flatMap.mp hrow
    exact h b hb row hrow

namespace Terminal

variable {t : Terminal}

theorem Sound.setMessage (h : t.Sound) (hopen : t.popup ≠ .exporting) (text : List Char) : (t.setMessage text).Sound :=
  { h with
    row := fun hne => absurd rfl hne
    cells := by simp [Terminal.setMessage]
    columns := fun _ hne => absurd rfl hne
    exports := fun hpopup => absurd hpopup hopen
    message := fun _ => rfl }

/-- Results whose columns are shown from the first one on, or that are those of a listing. -/
theorem Sound.results (h : t.Sound) (hopen : t.popup ≠ .exporting) {results : QueryResults} {selected : Option Nat} {hScroll : Nat}
    (hcells : ∀ row ∈ results.rows, row.length = results.headers.length) (hselected : ∀ i, selected = some i → i = 0)
    (hscroll : results.headers ∈ listingHeaders ∨ hScroll = 0) :
    Sound { t with results := results, message := none, selected := selected, hScroll := hScroll } :=
  { h with
    row := by
      intro hne i hi
      rw [hselected i hi]
      exact List.length_pos_iff.mpr hne
    cells := hcells
    columns := by
      intro hlisting hne
      obtain hin | hzero := hscroll
      · exact absurd hin hlisting
      · exact hzero ▸ List.length_pos_iff.mpr hne
    exports := fun hpopup => absurd hpopup hopen
    message := fun hmessage => by cases hmessage }

theorem eq_zero_of_first (n : Nat) : ∀ i, (if 0 < n then some 0 else none) = some i → i = 0 := by
  intro i hi
  split_ifs at hi
  cases hi
  rfl

theorem length_sortNames (names : List (List Char)) : (sortNames names).length = names.length := List.length_mergeSort _

theorem Sound.loadTables (h : t.Sound) (tables : Option (List (List Char))) : (t.loadTables tables).Sound := by
  unfold Terminal.loadTables
  cases tables with
  | none => exact h
  | some names =>
    refine { h with table := ?_ }
    dsimp only
    rw [length_sortNames]
    split_ifs <;> omega

theorem Sound.executeSql (h : t.Sound) (hopen : t.popup ≠ .exporting) {answers : Answers} (hanswer : answers.result.Rectangular) :
    (t.executeSql answers).Sound := by
  unfold Terminal.executeSql
  refine Sound.loadTables ?_ _
  unfold showAnswer
  cases hr : answers.result with
  | records batches =>
    rw [hr] at hanswer
    exact h.results hopen (cells_fromBatches hanswer) (eq_zero_of_first _) (.inr rfl)
  | message text => exact { h.setMessage hopen text with columns := fun _ hne => absurd rfl hne }
  | error text => exact { h.setMessage hopen ("ERROR: ".toList ++ text) with columns := fun _ hne => absurd rfl hne }

/-- A listing has the headers of one, and rows of their length. -/
theorem metaListing_headers {answers : Answers} {command : List Char} {headers : List (List Char)} {rows : List (List (List Char))}
    (h : metaListing answers command = some (headers, rows)) : headers ∈ listingHeaders ∧ ∀ row ∈ rows, row.length = headers.length := by
  have hsingle : ∀ (header : String) (names : List (List Char)), [header.toList] ∈ listingHeaders →
      some ([header.toList], (sortNames names).map fun n => [n]) = some (headers, rows) →
        headers ∈ listingHeaders ∧ ∀ row ∈ rows, row.length = headers.length := by
    intro header names hin heq
    simp only [Option.some.injEq, Prod.mk.injEq] at heq
    obtain ⟨rfl, rfl⟩ := heq
    refine ⟨hin, fun row hrow => ?_⟩
    obtain ⟨n, _, rfl⟩ := List.mem_map.mp hrow
    rfl
  unfold metaListing at h
  dsimp only at h
  split_ifs at h
  · exact hsingle _ _ (by simp [listingHeaders]) h
  · cases h
    refine ⟨by simp [listingHeaders], fun row hrow => ?_⟩
    obtain ⟨i, _, rfl⟩ := List.mem_map.mp hrow
    rfl
  · exact hsingle _ _ (by simp [listingHeaders]) h
  · exact hsingle _ _ (by simp [listingHeaders]) h
  · cases h
    refine ⟨by simp [listingHeaders], fun row hrow => ?_⟩
    obtain ⟨u, _, rfl⟩ := List.mem_map.mp hrow
    rfl

theorem Sound.runMetaCommand (h : t.Sound) (hopen : t.popup ≠ .exporting) {answers : Answers} (hanswer : answers.result.Rectangular)
    (cmd : List Char) : (t.runMetaCommand answers cmd).Sound := by
  unfold Terminal.runMetaCommand
  dsimp only
  split
  · rename_i headers rows hlisting
    obtain ⟨hheaders, hrows⟩ := metaListing_headers hlisting
    exact h.results hopen hrows (eq_zero_of_first _) (.inl hheaders)
  · split_ifs
    · exact Sound.setMessage (t := { t with showTiming := !t.showTiming }) { h with } hopen _
    · exact Sound.setMessage (t := { t with showTiming := !t.showTiming }) { h with } hopen _
    · exact h.executeSql hopen hanswer
    · exact h.setMessage hopen _

theorem Sound.runQuery (h : t.Sound) (hopen : t.popup ≠ .exporting) {answers : Answers} (hanswer : answers.result.Rectangular)
    (sql : List Char) : (t.runQuery answers sql).Sound := by
  unfold Terminal.runQuery
  split_ifs
  · exact h.runMetaCommand hopen hanswer sql
  · exact h.executeSql hopen hanswer

theorem Sound.loadSchema (h : t.Sound) (answers : Answers) (table : List Char) : (t.loadSchema answers table).Sound := by
  unfold Terminal.loadSchema
  split_ifs
  · exact h
  · split
    · exact h
    · exact { h with }

/-! ## Turns -/

/-- A line that cannot be drawn: it has a character of several bytes in its code. -/
def Undrawn (t : Terminal) : Prop := ∃ line ∈ t.app.inputLines, ∃ c ∈ Highlighting.codeText false line, c.utf8Size ≠ 1

theorem undrawn_of_draw {areas : Areas} (h : t.draw areas = none) : t.Undrawn := by
  unfold draw at h
  split_ifs at h with hlines
  simp only [List.all_eq_true, not_forall, Bool.not_eq_true, Option.isSome_eq_false_iff, Option.isNone_iff_eq_none] at hlines
  obtain ⟨line, hline, hnone⟩ := hlines
  obtain ⟨spans, hspans, _⟩ | ⟨_, hwide⟩ := Highlighting.highlightSqlLine_cases line
  · rw [hnone] at hspans
    cases hspans
  · exact ⟨line, hline, hwide⟩

theorem draw_some {areas : Areas} {t' : Terminal} (h : t.draw areas = some t') : t' = { t with areas := areas } := by
  unfold draw at h
  split_ifs at h
  cases h
  rfl

theorem Sound.drawn (h : t.Sound) {areas : Areas} {t' : Terminal} (ht : t.draw areas = some t') : t'.Sound := by
  rw [draw_some ht]
  exact { h with }

/-- A query comes of the editor, and a preview of a part whose lines are as they were; no popup is open then. -/
def Asked (t t' : Terminal) : Command → Prop
  | .execute _ => t'.popup = .none ∧ t.focus = .query ∧ t.popup = .none
  | .previewTable _ => t'.popup = .none ∧ t' = t
  | _ => True

theorem asked_sidebarKey (hopen : t.popup = .none) (key : Key) : t.Asked (t.handleSidebarKey key).1 (t.handleSidebarKey key).2 := by
  unfold handleSidebarKey
  dsimp only
  split
  · exact trivial
  · exact trivial
  · split
    · exact ⟨hopen, rfl⟩
    · exact trivial
  · exact trivial

theorem asked_focusedKey (hopen : t.popup = .none) {modifiers : KeyModifiers} {key : Key} {r : Terminal × Command}
    (hr : t.focusedKey modifiers key = some r) : t.Asked r.1 r.2 := by
  unfold Terminal.focusedKey at hr
  split at hr
  · rename_i hfocus
    obtain ⟨r', _, rfl⟩ := Option.map_eq_some_iff.mp hr
    cases r'.2 with
    | none => exact trivial
    | execute sql => exact ⟨hopen, hfocus, hopen⟩
  · cases hr
    exact asked_sidebarKey hopen key
  · cases hr
    exact trivial

theorem asked_exportKey (key : Key) : t.Asked (t.handleExportKey key).1 (t.handleExportKey key).2 := by
  unfold handleExportKey
  split <;> exact trivial

theorem asked_handleKey {m : CaseMapping} {modifiers : KeyModifiers} {key : Key} {r : Terminal × Command}
    (hr : t.handleKey m modifiers key = some r) : t.Asked r.1 r.2 := by
  cases hpopup : t.popup with
  | none =>
    obtain heq | ⟨_, heq⟩ | ⟨r', heq, howned⟩ := handleKey_cases m modifiers key hpopup
    · exact asked_focusedKey hpopup (heq ▸ hr)
    · rw [heq] at hr
      obtain ⟨a, _, rfl⟩ := Option.map_eq_some_iff.mp hr
      exact trivial
    · rw [heq] at hr
      cases hr
      cases howned <;> exact trivial
  | help =>
    unfold Terminal.handleKey at hr
    rw [if_pos hpopup] at hr
    cases hr
    exact trivial
  | exporting =>
    unfold Terminal.handleKey at hr
    rw [if_neg (by simp [hpopup]), if_pos hpopup] at hr
    cases hr
    exact asked_exportKey key

/-- A key fails only in the editor, with no popup open. -/
theorem editing_of_handleKey {m : CaseMapping} {modifiers : KeyModifiers} {key : Key} (hr : t.handleKey m modifiers key = none) :
    t.focus = .query ∧ t.popup = .none := by
  cases hpopup : t.popup with
  | none =>
    refine ⟨?_, rfl⟩
    obtain heq | ⟨hfocus, _⟩ | ⟨r, heq, _⟩ := handleKey_cases m modifiers key hpopup
    · rw [heq] at hr
      unfold focusedKey at hr
      split at hr
      · assumption
      · cases hr
      · cases hr
    · exact hfocus
    · rw [heq] at hr
      cases hr
  | help =>
    unfold Terminal.handleKey at hr
    rw [if_pos hpopup] at hr
    cases hr
  | exporting =>
    unfold Terminal.handleKey at hr
    rw [if_neg (by simp [hpopup]), if_pos hpopup] at hr
    cases hr

theorem loadSchema_popup (answers : Answers) (table : List Char) : (t.loadSchema answers table).popup = t.popup := by
  unfold Terminal.loadSchema
  split_ifs
  · rfl
  · split <;> rfl

theorem loadSchema_inputLines (answers : Answers) (table : List Char) :
    (t.loadSchema answers table).app.inputLines = t.app.inputLines := by
  unfold Terminal.loadSchema
  split_ifs
  · rfl
  · split <;> rfl

theorem loadTables_popup (tables : Option (List (List Char))) : (t.loadTables tables).popup = t.popup := by
  unfold Terminal.loadTables
  split <;> rfl

theorem Sound.obey (h : t.Sound) {turn : Turn} (hanswer : turn.answers.result.Rectangular) {command : Command} {before : Terminal}
    (hasked : before.Asked t command) {t' : Terminal} (ht : t.obey turn command = some t') : t'.Sound := by
  have hrun : ∀ {u : Terminal} {sql : List Char}, u.Sound → u.popup = .none →
      (u.draw turn.areas).map (fun t => t.runQuery turn.answers sql) = some t' → t'.Sound := by
    intro u sql hu hopen hdraw
    obtain ⟨drawn, hdrawn, rfl⟩ := Option.map_eq_some_iff.mp hdraw
    refine (hu.drawn hdrawn).runQuery ?_ hanswer sql
    rw [draw_some hdrawn]
    simp [hopen]
  cases command with
  | execute sql => exact hrun h hasked.1 ht
  | previewTable name => exact hrun (h.loadSchema _ _) ((loadSchema_popup _ _).trans hasked.1) ht
  | none => exact Option.some.inj ht ▸ h
  | write path content => exact Option.some.inj ht ▸ h
  | quit => exact Option.some.inj ht ▸ h

theorem Sound.turn (h : t.Sound) {m : CaseMapping} {turn : Turn} (hanswer : turn.answers.result.Rectangular) {r : Terminal × Bool}
    (hr : t.turn m turn = some r) : r.1.Sound := by
  obtain ⟨drawn, hdrawn, hr⟩ := Option.bind_eq_some_iff.mp hr
  have hsound : drawn.Sound := Sound.drawn (t := { t with visibleHeight := turn.height - 7 }) { h with } hdrawn
  cases hinput : turn.input with
  | key modifiers key =>
    rw [hinput] at hr
    obtain ⟨pressed, hpressed, hr⟩ := Option.bind_eq_some_iff.mp hr
    obtain ⟨t', ht', rfl⟩ := Option.map_eq_some_iff.mp hr
    exact (hsound.handleKey hpressed).obey hanswer (asked_handleKey hpressed) ht'
  | mouse mouse =>
    rw [hinput] at hr
    cases hr
    exact hsound.handleMouse mouse
  | other =>
    rw [hinput] at hr
    cases hr
    exact hsound

/-- Where a turn fails: at a line that cannot be drawn, or in the editor. -/
theorem failed_turn {m : CaseMapping} {turn : Turn} (h : t.turn m turn = none) :
    t.Undrawn ∨ ∃ modifiers key, turn.input = .key modifiers key ∧ t.focus = .query ∧ t.popup = .none := by
  unfold Terminal.turn at h
  cases hdraw : { t with visibleHeight := turn.height - 7 }.draw turn.areas with
  | none => exact .inl (undrawn_of_draw (t := { t with visibleHeight := turn.height - 7 }) hdraw)
  | some drawn =>
    rw [hdraw, Option.bind_some] at h
    have hdrawn := draw_some hdraw
    cases hinput : turn.input with
    | key modifiers key =>
      rw [hinput] at h
      cases hpressed : drawn.handleKey m modifiers key with
      | none =>
        have hediting := editing_of_handleKey hpressed
        rw [hdrawn] at hediting
        exact .inr ⟨modifiers, key, rfl, hediting⟩
      | some pressed =>
        simp only [hpressed, Option.bind_some, Option.map_eq_none_iff] at h
        have hasked := asked_handleKey hpressed
        obtain ⟨pressed, command⟩ := pressed
        cases command with
        | execute sql =>
          have hediting := hasked.2
          rw [hdrawn] at hediting
          exact .inr ⟨modifiers, key, rfl, hediting⟩
        | previewTable name =>
          simp only [Terminal.obey, Option.map_eq_none_iff] at h
          obtain ⟨line, hline, hwide⟩ := undrawn_of_draw h
          have hsame : pressed = drawn := hasked.2
          rw [loadSchema_inputLines, hsame, hdrawn] at hline
          exact .inl ⟨line, hline, hwide⟩
        | none => cases h
        | write path content => cases h
        | quit => cases h
    | mouse mouse =>
      rw [hinput] at h
      cases h
    | other =>
      rw [hinput] at h
      cases h

theorem Sound.loop {m : CaseMapping} {turns : List Turn} (hanswers : ∀ turn ∈ turns, turn.answers.result.Rectangular) :
    ∀ {t t' : Terminal}, t.Sound → t.loop m turns = some t' → t'.Sound := by
  induction turns with
  | nil =>
    intro t t' h ht
    cases ht
    exact h
  | cons turn turns ih =>
    intro t t' h ht
    obtain ⟨r, hr, ht⟩ := Option.bind_eq_some_iff.mp ht
    have hsound := h.turn (hanswers turn (by simp)) hr
    split_ifs at ht
    · cases ht
      exact hsound
    · exact ih (fun turn' hturn' => hanswers turn' (by simp [hturn'])) hsound ht

/-- A loop that fails does so in one of its turns. -/
theorem failed_loop {m : CaseMapping} {turns : List Turn} :
    ∀ {t : Terminal}, t.loop m turns = none →
      ∃ before turn after t', turns = before ++ turn :: after ∧ t.loop m before = some t' ∧ t'.turn m turn = none := by
  induction turns with
  | nil =>
    intro t h
    cases h
  | cons turn turns ih =>
    intro t h
    cases hr : t.turn m turn with
    | none => exact ⟨[], turn, turns, t, rfl, rfl, hr⟩
    | some r =>
      unfold Terminal.loop at h
      rw [hr, Option.bind_some] at h
      split_ifs at h with hquit
      obtain ⟨before, turn', after, t', rfl, ht', hfail⟩ := ih h
      refine ⟨turn :: before, turn', after, t', rfl, ?_, hfail⟩
      unfold Terminal.loop
      rw [hr, Option.bind_some, if_neg hquit, ht']

theorem sound_new (historyFile : Option (List Char)) : (new historyFile).Sound where
  row := fun hne => absurd rfl hne
  table := Nat.le_refl 0
  cells := by simp [new]
  columns := fun _ hne => absurd rfl hne
  exports := fun hpopup => by cases hpopup
  format := Nat.zero_lt_succ _
  completion := fun comp hcomp => by cases hcomp
  message := fun hmessage => by cases hmessage

theorem sound_start (historyFile : Option (List Char)) {answers : Answers} (hanswer : answers.result.Rectangular) :
    (start historyFile answers).Sound := by
  have hloaded := (sound_new historyFile).loadTables answers.tables
  unfold start
  dsimp only
  split
  · exact hloaded
  · refine (hloaded.loadSchema answers _).runQuery ?_ hanswer _
    rw [loadSchema_popup, loadTables_popup]
    simp [new]

end Terminal

/-- **The terminal is sound in every state that a session reaches**, and a session fails only at a line that cannot be drawn
or at a key for its editor. -/
theorem terminal_sound (m : CaseMapping) (historyFile : Option (List Char)) (answers : Answers) (turns : List Turn)
    (hanswer : answers.result.Rectangular) (hanswers : ∀ turn ∈ turns, turn.answers.result.Rectangular) :
    (∀ t, (Terminal.start historyFile answers).loop m turns = some t → t.Sound) ∧
    ((Terminal.start historyFile answers).loop m turns = none →
      ∃ before turn after t, turns = before ++ turn :: after ∧ (Terminal.start historyFile answers).loop m before = some t ∧ t.Sound ∧
        (t.Undrawn ∨ ∃ modifiers key, turn.input = .key modifiers key ∧ t.focus = .query ∧ t.popup = .none)) := by
  have hstart := Terminal.sound_start historyFile hanswer
  refine ⟨fun t ht => hstart.loop hanswers ht, fun hfail => ?_⟩
  obtain ⟨before, turn, after, t, rfl, ht, hturn⟩ := Terminal.failed_loop hfail
  exact ⟨before, turn, after, t, rfl, ht, hstart.loop (fun turn' hturn' => hanswers turn' (by simp [hturn'])) ht,
    Terminal.failed_turn hturn⟩

/-- A table of two columns and two rows. -/
def shownPair : Answers where
  result := .records [⟨["id".toList, "name".toList], 2, [["1".toList, "a".toList], ["2".toList, "b".toList]]⟩]
  tables := some ["t".toList]
  schema := some ["id".toList, "name".toList]
  views := []
  indexes := []
  sequences := []
  functions := []
  users := []

def pressed (modifiers : KeyModifiers) (key : Key) : Turn := ⟨24, ⟨⟨0, 0, 20, 20⟩, ⟨20, 0, 60, 16⟩, ⟨20, 16, 60, 8⟩⟩, .key modifiers key, shownPair⟩

/-- To the results, three rows down, and to the popup of the export. -/
def downAndExport : List Turn :=
  [pressed .shift .backTab, pressed .none (.code .down), pressed .none (.code .down), pressed .none (.code .down),
    pressed .control (.code (.char 's'))]

theorem terminal_sound_pair :
    ((Terminal.start none shownPair).loop Texts.someCases downAndExport).map (fun t => (t.selected, t.popup)) = some (some 1, .exporting) ∧
    ∀ t, (Terminal.start none shownPair).loop Texts.someCases downAndExport = some t → t.Sound := by
  refine ⟨by decide +kernel, ?_⟩
  have hpair : shownPair.result.Rectangular := by
    intro b hb row hrow
    rw [List.mem_singleton.mp hb] at hrow
    simp only [List.mem_cons, List.not_mem_nil, or_false] at hrow
    obtain rfl | rfl := hrow <;> rfl
  refine (terminal_sound Texts.someCases none shownPair downAndExport hpair ?_).1
  intro turn hturn
  have hsame : turn.answers = shownPair := by
    simp only [downAndExport, List.mem_cons, List.not_mem_nil, or_false] at hturn
    obtain rfl | rfl | rfl | rfl | rfl := hturn <;> rfl
  rw [hsame]
  exact hpair

end PotatoDB.Tui
