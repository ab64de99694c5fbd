import PotatoDB.Editor
import PotatoDB.ParametersSound

/-!
# The history file of the terminal

The statements that were run are kept in a file, one to a line with `\n` for their line feeds. A text that already holds
these two characters comes back with a line feed.
-/

namespace PotatoDB.Tui

def stripCarriageReturn (line : List Char) : List Char := if line.getLast? = some '\r' then line.dropLast else line

/-- `str::lines`: a last line that no line feed ends is kept as it is, unless it is empty. -/
def textLines (s : List Char) : List (List Char) :=
  let pieces := s.splitOn '\n'
  let last := pieces.getLast?.getD []
  pieces.dropLast.map stripCarriageReturn ++ if last = [] then [] else [last]

/-- The text of an entry in a line of the file, and back. -/
def escapeLine (entry : List Char) : List Char := replaceFrom ['\n'] ['\\', 'n'] 0 entry

def unescapeLine (line : List Char) : List Char := replaceFrom ['\\', 'n'] ['\n'] 0 line

/-- Without a file that can be read there is no history. -/
def loadHistory : Option (List Char) → List (List Char)
  | none => []
  | some contents => (textLines contents).map unescapeLine

namespace App

def new (historyFile : Option (List Char)) : App where
  inputLines := [[]]
  cursorRow := 0
  cursorCol := 0
  history := loadHistory historyFile
  historyPos := none
  completion := none
  tables := []
  selectedTable := 0
  schemaCache := []

/-- The file that is written. -/
def persistHistory (a : App) : List Char := a.history.flatMap fun entry => escapeLine entry ++ ['\n']

end App

/-- The terminal with the file of its history. -/
structure Session where
  app : App
  file : Option (List Char)

namespace Session

def start (file : Option (List Char)) : Session := ⟨.new file, file⟩

def save (s : Session) (sql : List Char) : Session :=
  if trim sql = [] then s else ⟨s.app.saveHistoryEntry sql, some (s.app.saveHistoryEntry sql).persistHistory⟩

def run (s : Session) (calls : List (List Char)) : Session := calls.foldl save s

/-- The terminal is closed and opened again. -/
def restart (s : Session) : Session := start s.file

end Session

/-! ## What is remembered -/

def entries (calls : List (List Char)) : List (List Char) := (calls.map trim).filter (· ≠ [])

/-- The new entries behind the old ones, without those that repeat the one before. -/
def behindOld (old new : List (List Char)) : List (List Char) :=
  old.dropLast ++ (old.getLast?.toList ++ new).destutter (· ≠ ·)

def remembered (old calls : List (List Char)) : List (List Char) :=
  if entries calls = [] then old else (behindOld old (entries calls)).rtake historyMax

/-- Comes back from a line of the file: no line feed is read in it, and no carriage return is taken off. -/
def Reloads (entry : List Char) : Prop := ¬ ['\\', 'n'] <:+: entry ∧ entry.getLast? ≠ some '\r'

/-- The history is what is to be remembered, and a new terminal has it too. -/
structure RoundTrips (file : Option (List Char)) (calls : List (List Char)) : Prop where
  history : ((Session.start file).run calls).app.history = remembered (loadHistory file) calls
  reload : ((Session.start file).run calls).restart.app.history = ((Session.start file).run calls).app.history

section
variable {α : Type} [DecidableEq α]

theorem destutter'_concat (b : α) : ∀ (l : List α) (a : α), (l ++ [b]).destutter' (· ≠ ·) a =
    if (l.destutter' (· ≠ ·) a).getLast? = some b then l.destutter' (· ≠ ·) a else l.destutter' (· ≠ ·) a ++ [b] := by
  intro l
  induction l with
  | nil =>
    intro a
    by_cases hab : a = b <;> simp [hab]
  | cons c l ih =>
    intro a
    by_cases hac : a ≠ c
    · have hlast : (a :: l.destutter' (· ≠ ·) c).getLast? = (l.destutter' (· ≠ ·) c).getLast? :=
        List.getLast?_cons_of_ne_nil (List.destutter'_ne_nil l _)
      rw [List.cons_append, List.destutter'_cons_pos _ hac, List.destutter'_cons_pos _ hac, ih, hlast]
      split <;> rfl
    · rw [List.cons_append, List.destutter'_cons_neg _ hac, List.destutter'_cons_neg _ hac, ih]

theorem destutter_concat (l : List α) (b : α) : (l ++ [b]).destutter (· ≠ ·) =
    if (l.destutter (· ≠ ·)).getLast? = some b then l.destutter (· ≠ ·) else l.destutter (· ≠ ·) ++ [b] := by
  cases l with
  | nil => simp
  | cons a l => exact destutter'_concat b l a

end

theorem behindOld_nil (old : List (List Char)) : behindOld old [] = old := by
  cases h : old.getLast? with
  | none => simp [behindOld, List.getLast?_eq_none_iff.mp h]
  | some last =>
    obtain ⟨front, rfl⟩ := List.getLast?_eq_some_iff.mp h
    simp [behindOld]

/-- As one call of `save_history_entry` does it. -/
theorem behindOld_concat (old new : List (List Char)) (entry : List Char) : behindOld old (new ++ [entry]) =
    if (behindOld old new).getLast? = some entry then behindOld old new else behindOld old new ++ [entry] := by
  have hlast : (behindOld old new).getLast? = ((old.getLast?.toList ++ new).destutter (· ≠ ·)).getLast? := by
    cases h : old.getLast? with
    | none => simp [behindOld, List.getLast?_eq_none_iff.mp h]
    | some last =>
      have hne : (last :: new).destutter (· ≠ ·) ≠ [] := List.destutter'_ne_nil new _
      rw [behindOld, h, Option.toList_some, List.singleton_append, List.getLast?_append_of_ne_nil _ hne]
  rw [hlast, behindOld, behindOld, ← List.append_assoc, destutter_concat]
  split
  · rfl
  · rw [List.append_assoc]

/-! ## One call -/

section
variable {α : Type}

theorem getLast?_rtake {n : Nat} (h : 0 < n) (l : List α) : (l.rtake n).getLast? = l.getLast? := by
  rw [List.rtake, List.getLast?_drop]
  split
  · rename_i hle
    rw [List.eq_nil_of_length_eq_zero (show l.length = 0 by omega)]
    rfl
  · rfl

theorem rtake_rtake_of_le {m n : Nat} (h : m ≤ n) (l : List α) : (l.rtake n).rtake m = l.rtake m := by
  rw [List.rtake_eq_reverse_take_reverse, List.rtake_eq_reverse_take_reverse l n, List.reverse_reverse, List.take_take,
    Nat.min_eq_left h, ← List.rtake_eq_reverse_take_reverse]

theorem rtake_concat_rtake (n : Nat) (l : List α) (a : α) :
    (l.rtake (n + 1) ++ [a]).rtake (n + 1) = (l ++ [a]).rtake (n + 1) := by
  rw [List.rtake_concat_succ, List.rtake_concat_succ, rtake_rtake_of_le (Nat.le_succ n)]

end

theorem entries_concat (calls : List (List Char)) (sql : List Char) :
    entries (calls ++ [sql]) = entries calls ++ if trim sql = [] then [] else [trim sql] := by
  rw [entries, List.map_append, List.filter_append, List.map_singleton, List.filter_singleton, ← entries]
  by_cases hsql : trim sql = [] <;> simp [hsql]

theorem history_saveHistoryEntry (a : App) {sql : List Char} (h : trim sql ≠ []) : (a.saveHistoryEntry sql).history =
    (if a.history.getLast? = some (trim sql) then a.history else a.history ++ [trim sql]).rtake historyMax := by
  simp only [App.saveHistoryEntry, if_neg h, List.rtake]

theorem remembered_concat (old calls : List (List Char)) {sql : List Char} (h : trim sql ≠ []) :
    remembered old (calls ++ [sql]) = (if (remembered old calls).getLast? = some (trim sql) then remembered old calls
      else remembered old calls ++ [trim sql]).rtake historyMax := by
  have hentries := entries_concat calls sql
  rw [if_neg h] at hentries
  rw [remembered, if_neg (by simp [hentries]), hentries, behindOld_concat, remembered]
  by_cases hnone : entries calls = []
  · rw [if_pos hnone, hnone, behindOld_nil]
  · rw [if_neg hnone, getLast?_rtake (by decide)]
    split
    · rw [rtake_rtake_of_le (Nat.le_refl _)]
    · exact (rtake_concat_rtake 999 _ _).symm

/-- What a session holds after some calls: the file of the history, unless nothing was saved. -/
theorem run_holds (file : Option (List Char)) (calls : List (List Char)) :
    ((Session.start file).run calls).app.history = remembered (loadHistory file) calls ∧
      ((Session.start file).run calls).file =
        if entries calls = [] then file else some ((Session.start file).run calls).app.persistHistory := by
  induction calls using List.reverseRecOn with
  | nil => exact ⟨rfl, rfl⟩
  | append_singleton calls sql ih =>
    obtain ⟨hhistory, hfile⟩ := ih
    have hrun : (Session.start file).run (calls ++ [sql]) = ((Session.start file).run calls).save sql := by
      simp [Session.run]
    have hentries := entries_concat calls sql
    rw [hrun, Session.save]
    by_cases hsql : trim sql = []
    · rw [if_pos hsql, List.append_nil] at hentries
      rw [if_pos hsql, remembered, hentries, ← remembered]
      exact ⟨hhistory, hfile⟩
    · rw [if_neg hsql] at hentries
      have hne : entries (calls ++ [sql]) ≠ [] := by simp [hentries]
      rw [if_neg hsql, remembered_concat _ _ hsql, if_neg hne, history_saveHistoryEntry _ hsql, hhistory]
      exact ⟨rfl, rfl⟩

/-! ## The file -/

theorem unescapeLine_mark (rest : List Char) : unescapeLine ('\\' :: 'n' :: rest) = '\n' :: unescapeLine rest :=
  replaceFrom_match (List.cons_ne_nil _ _) ['\n'] rest

theorem unescapeLine_cons {c : Char} {rest : List Char} (h : ¬ ['\\', 'n'] <+: c :: rest) :
    unescapeLine (c :: rest) = c :: unescapeLine rest := by
  rw [unescapeLine, replaceFrom, if_neg (by simpa [List.isPrefixOf_iff_prefix] using h), unescapeLine]

theorem mark_induction {P : List Char → Prop} (nil : P []) (mark : ∀ rest, P rest → P ('\\' :: 'n' :: rest))
    (cons : ∀ c rest, ¬ ['\\', 'n'] <+: c :: rest → P rest → P (c :: rest)) : ∀ entry, P entry
  | [] => nil
  | c :: rest => by
    have ih := mark_induction nil mark cons rest
    by_cases hmark : ['\\', 'n'] <+: c :: rest
    · obtain ⟨rest', heq⟩ := hmark
      rw [← heq]
      have hshort : rest'.length < (c :: rest).length := by
        rw [← heq]
        simp only [List.length_append, List.length_cons]
        omega
      exact mark rest' (mark_induction nil mark cons rest')
    · exact cons c rest hmark ih
termination_by entry => entry.length
decreasing_by
  · exact Nat.lt_succ_self _
  · exact hshort

theorem escapeLine_eq (entry : List Char) : escapeLine entry = entry.flatMap fun c => if c = '\n' then ['\\', 'n'] else [c] := by
  induction entry with
  | nil => rfl
  | cons c rest ih =>
    rw [List.flatMap_cons, ← ih]
    by_cases hc : c = '\n'
    · subst hc
      exact replaceFrom_match (List.cons_ne_nil _ _) ['\\', 'n'] rest
    · rw [escapeLine, replaceFrom, if_neg (by simp [List.isPrefixOf, Ne.symm hc]), if_neg hc]
      rfl

theorem escapeLine_append (s t : List Char) : escapeLine (s ++ t) = escapeLine s ++ escapeLine t := by
  simp only [escapeLine_eq, List.flatMap_append]

theorem escapeLine_single {c : Char} (h : c ≠ '\n') : escapeLine [c] = [c] := by
  simp [escapeLine_eq, h]

theorem newline_escapeLine (entry : List Char) : '\n' ∉ escapeLine entry := by
  rw [escapeLine_eq, List.mem_flatMap]
  intro ⟨c, _, hc⟩
  by_cases hfeed : c = '\n'
  · rw [if_pos hfeed] at hc
    simp at hc
  · rw [if_neg hfeed, List.mem_singleton] at hc
    exact hfeed hc.symm

/-- No mark comes to stand where there was none. -/
theorem not_mark_escapeLine {c : Char} {rest : List Char} (h : ¬ ['\\', 'n'] <+: c :: rest) :
    ¬ ['\\', 'n'] <+: c :: escapeLine rest := by
  intro hmark
  obtain ⟨rfl, htail⟩ := List.cons_prefix_cons.mp hmark
  refine h (List.cons_prefix_cons.mpr ⟨rfl, ?_⟩)
  cases rest with
  | nil => exact htail
  | cons d rest =>
    rw [escapeLine_eq, List.flatMap_cons] at htail
    by_cases hd : d = '\n'
    · simp [hd] at htail
    · simpa [hd] using htail

/-- The line feeds of an entry are read back, and so is every mark that was there. -/
theorem unescapeLine_escapeLine (entry : List Char) : unescapeLine (escapeLine entry) = unescapeLine entry := by
  induction entry using mark_induction with
  | nil => rfl
  | mark rest ih =>
    have hescape : escapeLine ('\\' :: 'n' :: rest) = '\\' :: 'n' :: escapeLine rest := escapeLine_append ['\\', 'n'] rest
    rw [hescape, unescapeLine_mark, unescapeLine_mark, ih]
  | cons c rest hmark ih =>
    rw [unescapeLine_cons hmark, ← List.singleton_append, escapeLine_append]
    by_cases hc : c = '\n'
    · subst hc
      have hescape : escapeLine ['\n'] ++ escapeLine rest = '\\' :: 'n' :: escapeLine rest := rfl
      rw [hescape, unescapeLine_mark, ih]
    · rw [escapeLine_single hc, List.singleton_append, unescapeLine_cons (not_mark_escapeLine hmark), ih]

theorem length_unescapeLine (line : List Char) : (unescapeLine line).length ≤ line.length := by
  induction line using mark_induction with
  | nil => exact Nat.le_refl _
  | mark rest ih =>
    rw [unescapeLine_mark]
    simp only [List.length_cons]
    omega
  | cons c rest hmark ih =>
    rw [unescapeLine_cons hmark]
    exact Nat.succ_le_succ ih

theorem unescapeLine_eq_iff (line : List Char) : unescapeLine line = line ↔ ¬ ['\\', 'n'] <:+: line := by
  induction line using mark_induction with
  | nil => simp [unescapeLine, replaceFrom]
  | mark rest ih =>
    have hle := length_unescapeLine rest
    refine iff_of_false ?_ (not_not_intro ⟨[], rest, rfl⟩)
    intro heq
    have hlength := congrArg List.length heq
    rw [unescapeLine_mark] at hlength
    simp only [List.length_cons] at hlength
    omega
  | cons c rest hmark ih =>
    rw [unescapeLine_cons hmark, List.cons.injEq, List.infix_cons_iff]
    simp [hmark, ih]

theorem getLast?_escapeLine {entry : List Char} (h : entry.getLast? ≠ some '\r') : (escapeLine entry).getLast? ≠ some '\r' := by
  cases entry using List.reverseRecOn with
  | nil => exact h
  | append_singleton front c =>
    rw [List.getLast?_concat] at h
    rw [escapeLine_append]
    by_cases hc : c = '\n'
    · have hfeed : escapeLine [c] = ['\\', 'n'] := by simp [escapeLine_eq, hc]
      simp [hfeed]
    · rw [escapeLine_single hc, List.getLast?_concat]
      exact h

/-! ## The round trip -/

theorem reload_iff (entry : List Char) : unescapeLine (stripCarriageReturn (escapeLine entry)) = entry ↔ Reloads entry := by
  by_cases hreturn : entry.getLast? = some '\r'
  · obtain ⟨front, rfl⟩ := List.getLast?_eq_some_iff.mp hreturn
    have hstrip : stripCarriageReturn (escapeLine (front ++ ['\r'])) = escapeLine front := by
      rw [escapeLine_append, escapeLine_single (by decide), stripCarriageReturn, if_pos List.getLast?_concat, List.dropLast_concat]
    have hle := length_unescapeLine front
    refine iff_of_false ?_ fun h => h.2 hreturn
    intro heq
    have hlength := congrArg List.length heq
    rw [hstrip, unescapeLine_escapeLine, List.length_append, List.length_singleton] at hlength
    omega
  · have hkeep : stripCarriageReturn (escapeLine entry) = escapeLine entry := by
      rw [stripCarriageReturn, if_neg (getLast?_escapeLine hreturn)]
    rw [hkeep, unescapeLine_escapeLine, unescapeLine_eq_iff, Reloads]
    simp [hreturn]

theorem splitOn_ended {lines : List (List Char)} (h : ∀ line ∈ lines, '\n' ∉ line) :
    (lines.flatMap (· ++ ['\n'])).splitOn '\n' = lines ++ [[]] := by
  induction lines with
  | nil => rfl
  | cons line lines ih =>
    obtain ⟨hline, hlines⟩ := List.forall_mem_cons.mp h
    rw [List.flatMap_cons, List.append_assoc, List.singleton_append, List.splitOn_append_cons_self_of_not_mem hline, ih hlines,
      List.cons_append]

theorem textLines_ended {lines : List (List Char)} (h : ∀ line ∈ lines, '\n' ∉ line) :
    textLines (lines.flatMap (· ++ ['\n'])) = lines.map stripCarriageReturn := by
  simp [textLines, splitOn_ended h]

theorem loadHistory_persistHistory (a : App) : loadHistory (some a.persistHistory) =
    a.history.map fun entry => unescapeLine (stripCarriageReturn (escapeLine entry)) := by
  have hlines : a.persistHistory = (a.history.map escapeLine).flatMap (· ++ ['\n']) := by
    rw [App.persistHistory, List.flatMap_map]
  have hfeeds : ∀ line ∈ a.history.map escapeLine, '\n' ∉ line := by
    intro line hline
    obtain ⟨entry, _, rfl⟩ := List.mem_map.mp hline
    exact newline_escapeLine entry
  rw [loadHistory, hlines, textLines_ended hfeeds, List.map_map, List.map_map]
  rfl

theorem loadHistory_persistHistory_iff (a : App) :
    loadHistory (some a.persistHistory) = a.history ↔ ∀ entry ∈ a.history, Reloads entry := by
  conv_lhs => rw [loadHistory_persistHistory, ← List.map_id a.history, List.map_map, List.map_inj_left]
  exact forall₂_congr fun entry _ => reload_iff entry

theorem reload_history_iff (file : Option (List Char)) (calls : List (List Char)) :
    loadHistory ((Session.start file).run calls).file = remembered (loadHistory file) calls ↔
      (entries calls ≠ [] → ∀ entry ∈ remembered (loadHistory file) calls, Reloads entry) := by
  obtain ⟨hhistory, hfile⟩ := run_holds file calls
  rw [hfile]
  by_cases hnone : entries calls = []
  · rw [if_pos hnone, remembered, if_pos hnone]
    simp [hnone]
  · rw [if_neg hnone, ← hhistory, loadHistory_persistHistory_iff]
    simp [hnone]

/-- The history comes back exactly if every entry that is remembered comes back from its line, or nothing was saved. -/
theorem history_round_trip (file : Option (List Char)) (calls : List (List Char)) :
    RoundTrips file calls ↔ (entries calls ≠ [] → ∀ entry ∈ remembered (loadHistory file) calls, Reloads entry) := by
  have hhistory := (run_holds file calls).1
  rw [← reload_history_iff]
  constructor
  · intro h
    rw [← hhistory]
    exact h.reload
  · intro h
    refine ⟨hhistory, ?_⟩
    rw [hhistory]
    exact h

/-- A regular expression for a line feed. -/
def matchesLineFeed : List Char := "SELECT * FROM t WHERE s ~ '\\n'".toList

/-- The next terminal has a line feed in it. -/
theorem mark_is_lost : ¬ RoundTrips none [matchesLineFeed] := by
  intro h
  have hreload : (Session.run (Session.start none) [matchesLineFeed]).restart.app.history ≠
      (Session.run (Session.start none) [matchesLineFeed]).app.history := by decide +kernel
  exact hreload h.reload

/-! ## Several sessions -/

theorem remembered_blank (old calls : List (List Char)) {sql : List Char} (h : trim sql = []) :
    remembered old (calls ++ [sql]) = remembered old calls := by
  have hentries := entries_concat calls sql
  rw [if_pos h, List.append_nil] at hentries
  rw [remembered, hentries, ← remembered]

theorem remembered_append (old calls calls' : List (List Char)) :
    remembered old (calls ++ calls') = remembered (remembered old calls) calls' := by
  induction calls' using List.reverseRecOn with
  | nil =>
    have hsame : remembered (remembered old calls) [] = remembered old calls := if_pos rfl
    rw [List.append_nil, hsame]
  | append_singleton calls' sql ih =>
    rw [← List.append_assoc]
    by_cases hsql : trim sql = []
    · rw [remembered_blank _ _ hsql, remembered_blank _ _ hsql, ih]
    · rw [remembered_concat _ _ hsql, remembered_concat _ _ hsql, ih]

theorem mem_remembered {old calls : List (List Char)} {entry : List Char} (h : entry ∈ remembered old calls) :
    entry ∈ old ∨ entry ∈ entries calls := by
  rw [remembered] at h
  split at h
  · exact .inl h
  · have hmem := List.mem_of_mem_drop h
    rw [behindOld, List.mem_append] at hmem
    obtain hfront | hnew := hmem
    · exact .inl ((List.dropLast_subset _ hfront))
    · have hkept := (List.destutter_sublist _ _).subset hnew
      rw [List.mem_append, Option.mem_toList] at hkept
      exact hkept.imp_left List.mem_of_getLast?

/-- While no statement holds a mark, what is remembered does not show where the terminal was closed and opened again. -/
theorem restarts_keep_history {file : Option (List Char)} (hold : ∀ entry ∈ loadHistory file, Reloads entry) :
    ∀ sessions : List (List (List Char)), (∀ calls ∈ sessions, ∀ entry ∈ entries calls, Reloads entry) →
      loadHistory (sessions.foldl (fun s calls => s.restart.run calls) (Session.start file)).file =
        remembered (loadHistory file) sessions.flatten ∧
      ∀ entry ∈ remembered (loadHistory file) sessions.flatten, Reloads entry := by
  intro sessions
  induction sessions using List.reverseRecOn with
  | nil => exact fun _ => ⟨rfl, hold⟩
  | append_singleton sessions calls ih =>
    intro h
    obtain ⟨hfile, hreloads⟩ := ih fun calls' hmem => h calls' (List.mem_append_left _ hmem)
    have hall : ∀ entry ∈ remembered (loadHistory file) (sessions ++ [calls]).flatten, Reloads entry := by
      rw [List.flatten_concat, remembered_append]
      intro entry hentry
      obtain hbefore | hnew := mem_remembered hentry
      · exact hreloads entry hbefore
      · exact h calls (List.mem_append_right _ (List.mem_singleton_self calls)) entry hnew
    refine ⟨?_, hall⟩
    rw [List.flatten_concat, remembered_append] at hall ⊢
    rw [List.foldl_concat, Session.restart]
    rw [← hfile] at hall ⊢
    exact (reload_history_iff _ calls).mpr fun _ => hall

end PotatoDB.Tui
