import PotatoDB.History
import PotatoDB.JsonTorn

/-!
# The log of changes

Every statement that changes rows leaves an event in a ring, and a local database appends it to a file, one document to
a line. A new session fills the ring from the file. An append may fail, or stop in the middle of the line; then the next
line is glued to what is there, and no line that was whole before is touched.
-/

namespace PotatoDB

open Codecs Tui

/-! ## Events as lines -/

structure ChangeEvent where
  table : String
  op : String
  timestampMs : Int64
  rows : UInt64
deriving DecidableEq

/-- `Value::index` with a name: an object keeps the last of several values of one name. -/
def jsonIndex (name : String) : Json → Json
  | .object fields => (fields.reverse.lookup name).getD .null
  | _ => .null

def jsonAsStr : Json → Option String
  | .string s => some s
  | _ => none

def jsonAsI64 : Json → Option Int64
  | .integer n => if -2 ^ 63 ≤ n ∧ n < 2 ^ 63 then some (Int64.ofInt n) else none
  | _ => none

def jsonAsU64 : Json → Option UInt64
  | .integer n => if 0 ≤ n ∧ n < 2 ^ 64 then some (UInt64.ofNat n.toNat) else none
  | _ => none

namespace ChangeEvent

/-- `serde_json::json!` sorts the names. -/
def toJson (e : ChangeEvent) : Json :=
  .object [("op", .string e.op), ("rows", .integer e.rows.toNat), ("table", .string e.table),
    ("timestamp_ms", .integer e.timestampMs.toInt)]

def ofJson (val : Json) : ChangeEvent where
  table := (jsonAsStr (jsonIndex "table" val)).getD ""
  op := (jsonAsStr (jsonIndex "op" val)).getD ""
  timestampMs := (jsonAsI64 (jsonIndex "timestamp_ms" val)).getD 0
  rows := (jsonAsU64 (jsonIndex "rows" val)).getD 0

def line (e : ChangeEvent) : List Char := e.toJson.print .compact 0

/-- A line that is no document is passed over. -/
def ofLine (text : List Char) : Option ChangeEvent := (Json.parse text).map ofJson

theorem ofJson_toJson (e : ChangeEvent) : ofJson e.toJson = e := by
  have hrows := e.rows.toNat_lt
  have hlo := e.timestampMs.le_toInt
  have hhi := e.timestampMs.toInt_lt
  have hu : jsonAsU64 (.integer e.rows.toNat) = some e.rows := by
    rw [jsonAsU64, if_pos (by omega), Int.toNat_natCast, UInt64.ofNat_toNat]
  have hi : jsonAsI64 (.integer e.timestampMs.toInt) = some e.timestampMs := by
    rw [jsonAsI64, if_pos (by omega), Int64.ofInt_toInt]
  simp [ofJson, toJson, jsonIndex, jsonAsStr, hu, hi, List.lookup]

theorem within_toJson (e : ChangeEvent) : e.toJson.Within 127 := by
  have hrows := e.rows.toNat_lt
  have hlo := e.timestampMs.le_toInt
  have hhi := e.timestampMs.toInt_lt
  refine .object ?_
  simp only [List.forall_mem_cons, List.not_mem_nil, false_imp_iff, implies_true, and_true]
  exact ⟨.string _, .integer (by omega) (by omega), .string _, .integer hlo (by omega)⟩

theorem ofLine_line (e : ChangeEvent) : ofLine e.line = some e := by
  rw [ofLine, line, parse_print .compact e.within_toJson, Option.map_some, ofJson_toJson]

theorem newline_line (e : ChangeEvent) : '\n' ∉ e.line := newline_print e.within_toJson 0

theorem strip_line (e : ChangeEvent) : stripCarriageReturn e.line = e.line := by
  have hlast : e.line.getLast? = some '\x7d' := by
    rw [line, toJson, Json.print]
    exact getLast?_enclose .compact 0 '\x7b' '\x7d' _
  rw [stripCarriageReturn, hlast, if_neg (by decide)]

theorem ofLine_torn (e : ChangeEvent) {n : Nat} (h : n < e.line.length) : ofLine (e.line.take n) = none := by
  have hrest : e.line.drop n ≠ [] := by simpa using h
  have htorn : Json.parse (e.line.take n) = none :=
    parse_print_torn .compact e.within_toJson rfl (List.take_append_drop n e.line).symm hrest
  rw [ofLine, htorn, Option.map_none]

end ChangeEvent

/-! ## The ring and the file -/

/-- What an append does to the file. -/
inductive Append where
  | whole
  | failed
  /-- So many characters of the line. -/
  | torn (n : Nat)

def Append.text (line : List Char) : Append → List Char
  | .whole => line ++ ['\n']
  | .failed => []
  | .torn n => line.take n

structure ChangeLog where
  events : List ChangeEvent
  capacity : Nat
  hasPath : Bool
  file : List Char

/-- The events of the lines of a file. -/
def fileEvents (file : List Char) : List ChangeEvent := (textLines file).filterMap ChangeEvent.ofLine

namespace ChangeLog

/-- What a session begins with; without a path no file is read. -/
def loaded (hasPath : Bool) (file : List Char) : List ChangeEvent := if hasPath then fileEvents file else []

/-- The part of `PotatoDB::new` that fills the ring. -/
def new (capacity : Nat) (hasPath : Bool) (file : List Char) : ChangeLog where
  events := (loaded hasPath file).rtake capacity
  capacity := capacity
  hasPath := hasPath
  file := file

def recordCdcEvent (l : ChangeLog) (e : ChangeEvent) (append : Append) : ChangeLog :=
  { l with
    events := (l.events ++ [e]).rtake l.capacity
    file := if l.hasPath then l.file ++ append.text e.line else l.file }

end ChangeLog

/-- What happens to a log: an event, or the end of the session and a new one. -/
inductive ChangeStep where
  | record (e : ChangeEvent) (append : Append)
  | restart

def ChangeLog.step (l : ChangeLog) : ChangeStep → ChangeLog
  | .record e append => l.recordCdcEvent e append
  | .restart => .new l.capacity l.hasPath l.file

def ChangeLog.run (l : ChangeLog) (steps : List ChangeStep) : ChangeLog := steps.foldl step l

/-! ## What is kept -/

def ChangeStep.isRestart : ChangeStep → Bool
  | .restart => true
  | .record _ _ => false

def ChangeStep.isTorn : ChangeStep → Bool
  | .record _ (.torn _) => true
  | _ => false

/-- The events of some steps. -/
def recorded : List ChangeStep → List ChangeEvent
  | [] => []
  | .record e _ :: steps => e :: recorded steps
  | .restart :: steps => recorded steps

/-- The events that stand in lines of their own: `clean` says that the file ends where a line ends. -/
def survivors : Bool → List ChangeStep → List ChangeEvent
  | _, [] => []
  | clean, .restart :: steps => survivors clean steps
  | clean, .record _ .failed :: steps => survivors clean steps
  | clean, .record _ (.torn n) :: steps => survivors (clean && n == 0) steps
  | clean, .record e .whole :: steps => (if clean then [e] else []) ++ survivors true steps

/-- The lines of a file that are ended, and the rest behind them. -/
def endedPart (file : List Char) : List Char := file.rdropWhile (· ≠ '\n')

def openPart (file : List Char) : List Char := file.rtakeWhile (· ≠ '\n')

/-! ### Lines of a file -/

theorem ended_open (file : List Char) : endedPart file ++ openPart file = file := List.rdropWhile_append_rtakeWhile

theorem endedPart_line (file line : List Char) : endedPart (file ++ (line ++ ['\n'])) = file ++ (line ++ ['\n']) := by
  rw [endedPart, ← List.append_assoc, List.rdropWhile_concat_neg _ _ _ (by decide)]

theorem openPart_line (file line : List Char) : openPart (file ++ (line ++ ['\n'])) = [] := by
  rw [openPart, ← List.append_assoc, List.rtakeWhile_concat_neg _ _ _ (by decide)]

theorem endedPart_append (file : List Char) {piece : List Char} (h : '\n' ∉ piece) : endedPart (file ++ piece) = endedPart file := by
  induction piece using List.reverseRecOn with
  | nil => rw [List.append_nil]
  | append_singleton piece c ih =>
    simp only [List.mem_append, List.mem_singleton, not_or] at h
    rw [← List.append_assoc, endedPart, List.rdropWhile_concat_pos _ _ _ (by simpa using Ne.symm h.2)]
    exact ih h.1

theorem ended_cases (file : List Char) : endedPart file = [] ∨ ∃ front, endedPart file = front ++ ['\n'] := by
  by_cases h : endedPart file = []
  · exact .inl h
  · have hlast := List.rdropWhile_last_not (fun c : Char => decide (c ≠ '\n')) file h
    refine .inr ⟨(endedPart file).dropLast, ?_⟩
    have hc : (endedPart file).getLast h = '\n' := by simpa [endedPart] using hlast
    rw [← hc, List.dropLast_append_getLast]

theorem textLines_cut (front t : List Char) : textLines (front ++ '\n' :: t) = textLines (front ++ ['\n']) ++ textLines t := by
  have hne := List.splitOn_ne_nil '\n' t
  simp only [textLines, List.splitOn_append_cons_self, List.dropLast_append_of_ne_nil hne, List.getLast?_append_of_ne_nil _ hne]
  simp

/-- The lines that are ended come first, and what comes behind them is read by itself. -/
theorem fileEvents_append (file t : List Char) : fileEvents (file ++ t) = fileEvents (endedPart file) ++ fileEvents (openPart file ++ t) := by
  conv_lhs => rw [← ended_open file, List.append_assoc]
  obtain hnil | ⟨front, hfront⟩ := ended_cases file
  · rw [hnil]
    rfl
  · rw [hfront, List.append_assoc, List.singleton_append, fileEvents, textLines_cut, List.filterMap_append]
    rfl

theorem fileEvents_line (e : ChangeEvent) : fileEvents (e.line ++ ['\n']) = [e] := by
  have hlines := @textLines_ended [e.line] (by simpa using e.newline_line)
  rw [List.flatMap_singleton] at hlines
  rw [fileEvents, hlines]
  simp [e.strip_line, e.ofLine_line]

/-- A part of a line that nothing ends is one line. -/
theorem fileEvents_open {text : List Char} (h : '\n' ∉ text) : fileEvents text = (ChangeEvent.ofLine text).toList := by
  rw [fileEvents, textLines, List.splitOn_eq_singleton h]
  by_cases hnil : text = []
  · subst hnil
    rfl
  · cases hline : ChangeEvent.ofLine text <;> simp [hline, hnil]

/-! ### One step, and a run -/

namespace ChangeLog

@[simp] theorem step_capacity (l : ChangeLog) (step : ChangeStep) : (l.step step).capacity = l.capacity := by
  cases step <;> rfl

@[simp] theorem step_hasPath (l : ChangeLog) (step : ChangeStep) : (l.step step).hasPath = l.hasPath := by
  cases step <;> rfl

theorem run_cons (l : ChangeLog) (step : ChangeStep) (steps : List ChangeStep) : l.run (step :: steps) = (l.step step).run steps := rfl

@[simp] theorem run_capacity (l : ChangeLog) (steps : List ChangeStep) : (l.run steps).capacity = l.capacity := by
  induction steps generalizing l with
  | nil => rfl
  | cons step steps ih => rw [run_cons, ih, step_capacity]

@[simp] theorem run_hasPath (l : ChangeLog) (steps : List ChangeStep) : (l.run steps).hasPath = l.hasPath := by
  induction steps generalizing l with
  | nil => rfl
  | cons step steps ih => rw [run_cons, ih, step_hasPath]

end ChangeLog

theorem rtake_append_rtake (n : Nat) (l m : List ChangeEvent) : (l.rtake n ++ m).rtake n = (l ++ m).rtake n := by
  induction m using List.reverseRecOn with
  | nil => rw [List.append_nil, List.append_nil, rtake_rtake_of_le (Nat.le_refl n)]
  | append_singleton m e ih =>
    cases n with
    | zero => simp [List.rtake]
    | succ n => rw [← List.append_assoc, ← List.append_assoc, ← rtake_concat_rtake, ih, rtake_concat_rtake]

/-- Within a session the ring is the end of what there was and what was recorded. -/
theorem run_events (l : ChangeLog) {steps : List ChangeStep} (h : ∀ step ∈ steps, step.isRestart = false)
    {seen : List ChangeEvent} (hseen : l.events = seen.rtake l.capacity) :
    (l.run steps).events = (seen ++ recorded steps).rtake l.capacity := by
  induction steps generalizing l seen with
  | nil => simpa [recorded, ChangeLog.run] using hseen
  | cons step steps ih =>
    obtain ⟨hstep, hsteps⟩ := List.forall_mem_cons.mp h
    cases step with
    | restart => cases hstep
    | record e append =>
      have hevents : (l.recordCdcEvent e append).events = (seen ++ [e]).rtake l.capacity := by
        rw [ChangeLog.recordCdcEvent, hseen]
        exact rtake_append_rtake _ _ _
      have hrest := ih (l.recordCdcEvent e append) hsteps hevents
      rw [ChangeLog.run_cons, ChangeLog.step, hrest, recorded, List.append_assoc]
      rfl

/-- A step leaves the ended lines as they are and puts its own line behind them. -/
theorem run_survivors (l : ChangeLog) (hpath : l.hasPath = true) (steps : List ChangeStep) {clean : Bool}
    (hclean : clean = true → openPart l.file = []) :
    (fileEvents (endedPart l.file) ++ survivors clean steps).Sublist (fileEvents (endedPart (l.run steps).file)) := by
  induction steps generalizing l clean with
  | nil => simp [survivors, ChangeLog.run]
  | cons step steps ih =>
    rw [ChangeLog.run_cons]
    cases step with
    | restart => exact ih (l.step .restart) hpath hclean
    | record e append =>
      have hstep : (l.step (.record e append)).hasPath = true := hpath
      have hfile : (l.step (.record e append)).file = l.file ++ append.text e.line := if_pos hpath
      cases append with
      | failed =>
        have hsame : (l.step (.record e .failed)).file = l.file := by rw [hfile, Append.text, List.append_nil]
        have hrest := ih (l.step (.record e .failed)) hstep (by rwa [hsame])
        rwa [hsame] at hrest
      | torn n =>
        have hpiece : '\n' ∉ e.line.take n := fun hmem => e.newline_line (List.mem_of_mem_take hmem)
        have hopen : (clean && n == 0) = true → openPart (l.step (.record e (.torn n))).file = [] := by
          intro h
          simp only [Bool.and_eq_true, beq_iff_eq] at h
          rw [hfile, Append.text, h.2, List.take_zero, List.append_nil]
          exact hclean h.1
        have hrest := ih (l.step (.record e (.torn n))) hstep hopen
        rw [hfile, Append.text, endedPart_append _ hpiece] at hrest
        exact hrest
      | whole =>
        have hopen : true = true → openPart (l.step (.record e .whole)).file = [] := fun _ => by
          rw [hfile, Append.text]
          exact openPart_line _ _
        have hrest := ih (l.step (.record e .whole)) hstep hopen
        refine .trans ?_ hrest
        rw [hfile, Append.text, endedPart_line, fileEvents_append, survivors, ← List.append_assoc]
        refine .append_right (.append_left ?_ _) _
        cases clean with
        | false => simp
        | true => rw [hclean rfl, List.nil_append, fileEvents_line, if_pos rfl]

/-- If no append stops in the middle, the file has nothing else. -/
theorem run_exact (l : ChangeLog) (hpath : l.hasPath = true) {steps : List ChangeStep} (h : ∀ step ∈ steps, step.isTorn = false)
    (hclean : openPart l.file = []) :
    fileEvents (l.run steps).file = fileEvents l.file ++ survivors true steps ∧ openPart (l.run steps).file = [] := by
  induction steps generalizing l with
  | nil => simpa [survivors, ChangeLog.run] using hclean
  | cons step steps ih =>
    obtain ⟨htorn, hsteps⟩ := List.forall_mem_cons.mp h
    rw [ChangeLog.run_cons]
    cases step with
    | restart => exact ih (l.step .restart) hpath hsteps hclean
    | record e append =>
      have hstep : (l.step (.record e append)).hasPath = true := hpath
      have hfile : (l.step (.record e append)).file = l.file ++ append.text e.line := if_pos hpath
      cases append with
      | torn n => cases htorn
      | failed =>
        have hsame : (l.step (.record e .failed)).file = l.file := by rw [hfile, Append.text, List.append_nil]
        have hrest := ih (l.step (.record e .failed)) hstep hsteps (by rwa [hsame])
        rwa [hsame] at hrest
      | whole =>
        have hrest := ih (l.step (.record e .whole)) hstep hsteps (by
          rw [hfile, Append.text]
          exact openPart_line _ _)
        have hended : endedPart l.file = l.file := by
          have hsplit := ended_open l.file
          rwa [hclean, List.append_nil] at hsplit
        refine ⟨?_, hrest.2⟩
        rw [hrest.1, hfile, Append.text, fileEvents_append, hclean, hended, List.nil_append, fileEvents_line, survivors, if_pos rfl,
          List.append_assoc]

/-- What a log keeps over some steps, the last session of which comes behind a restart. -/
structure ChangesKept (start : ChangeLog) (earlier session : List ChangeStep) : Prop where
  /-- The ring is the end of the events that the file gave and those of the session. -/
  ring : (start.run (earlier ++ .restart :: session)).events =
    (ChangeLog.loaded start.hasPath (start.run earlier).file ++ recorded session).rtake start.capacity
  /-- An event whose line was written whole behind a whole line stays in the file. -/
  survive : start.hasPath = true → (fileEvents (endedPart start.file) ++ survivors (openPart start.file).isEmpty (earlier ++ session)).Sublist
    (fileEvents (start.run (earlier ++ session)).file)
  /-- Without torn lines the file has these events and no others, and then a line that is torn is no event and hides none. -/
  exact : start.hasPath = true → openPart start.file = [] → (∀ step ∈ earlier ++ session, step.isTorn = false) →
    fileEvents (start.run (earlier ++ session)).file = fileEvents start.file ++ survivors true (earlier ++ session) ∧
    ∀ (e : ChangeEvent) n, fileEvents ((start.run (earlier ++ session)).recordCdcEvent e (.torn n)).file =
      fileEvents start.file ++ survivors true (earlier ++ session) ++ if n < e.line.length then [] else [e]

end PotatoDB
