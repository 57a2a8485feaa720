import Mathlib.Data.List.Induction

/-!
# Windows of a log

A log lists its entries under strictly increasing positions. A window is the part of a log
above one position and up to another: windows that meet are joined by appending them, and
what is appended to a log beyond a window's end leaves the window as it is.
-/

namespace Nits.Logical

variable {α : Type} (position : α → Nat)

/-- The entries stand under strictly increasing positions. -/
def Ordered (log : List α) : Prop := log.Pairwise fun early late => position early < position late

/-- The entries above one position and up to another. -/
def window (after through : Nat) (log : List α) : List α :=
  log.filter fun entry => after < position entry ∧ position entry ≤ through

/-- The highest position in a log. -/
def lastPosition (log : List α) : Nat := (log.getLast?.map position).getD 0

variable {position} {log more : List α} {after middle through : Nat} {entry : α}

@[simp] theorem mem_window : entry ∈ window position after through log ↔
    entry ∈ log ∧ after < position entry ∧ position entry ≤ through := by
  simp [window]

theorem Ordered.sublist {part : List α} (ordered : Ordered position log) (sub : part.Sublist log) :
    Ordered position part :=
  List.Pairwise.sublist sub ordered

theorem Ordered.of_window (ordered : Ordered position log) (after through : Nat) :
    Ordered position (window position after through log) :=
  ordered.sublist List.filter_sublist

theorem ordered_cons : Ordered position (entry :: log) ↔
    (∀ other ∈ log, position entry < position other) ∧ Ordered position log :=
  List.pairwise_cons

theorem ordered_append : Ordered position (log ++ more) ↔
    Ordered position log ∧ Ordered position more ∧
      ∀ early ∈ log, ∀ late ∈ more, position early < position late :=
  List.pairwise_append

theorem ordered_concat : Ordered position (log ++ [entry]) ↔
    Ordered position log ∧ ∀ early ∈ log, position early < position entry := by
  simp [Ordered, List.pairwise_append]

/-- An ordered log is what it holds up to a position, followed by the rest. -/
theorem Ordered.split (ordered : Ordered position log) (through : Nat) :
    log = log.filter (fun entry => position entry ≤ through) ++
      log.filter fun entry => through < position entry := by
  induction log with
  | nil => rfl
  | cons first rest ih =>
    obtain ⟨above, ordered⟩ := ordered_cons.mp ordered
    by_cases within : position first ≤ through
    · rw [List.filter_cons_of_pos (by simpa using within), List.filter_cons_of_neg (by simpa using within),
        List.cons_append, ← ih ordered]
    · have none_ : rest.filter (fun entry => position entry ≤ through) = [] := by
        rw [List.filter_eq_nil_iff]
        intro entry mem
        have higher := above entry mem
        simp only [decide_eq_true_eq]
        omega
      have all : rest.filter (fun entry => through < position entry) = rest := by
        rw [List.filter_eq_self]
        intro entry mem
        have higher := above entry mem
        simp only [decide_eq_true_eq]
        omega
      rw [List.filter_cons_of_neg (by simpa using within),
        List.filter_cons_of_pos (by simpa using within), none_, all, List.nil_append]

theorem lastPosition_concat : lastPosition position (log ++ [entry]) = position entry := by
  simp [lastPosition]

/-- No entry stands above the last. -/
theorem Ordered.le_last (ordered : Ordered position log) (mem : entry ∈ log) :
    position entry ≤ lastPosition position log := by
  induction log using List.reverseRecOn with
  | nil => cases mem
  | append_singleton early last _ =>
    rw [lastPosition_concat]
    rcases List.mem_append.mp mem with before | same
    · exact Nat.le_of_lt ((ordered_concat.mp ordered).2 _ before)
    · exact Nat.le_of_eq (congrArg position (List.mem_singleton.mp same))

/-! ## Windows -/

theorem window_append : window position after through (log ++ more) =
    window position after through log ++ window position after through more :=
  List.filter_append ..

/-- A window that ends where it starts holds nothing. -/
theorem window_eq_nil (closed : through ≤ after) : window position after through log = [] := by
  refine List.filter_eq_nil_iff.mpr fun entry _ => ?_
  simp only [decide_eq_true_eq]
  omega

/-- Entries beyond a window's end are not in it. -/
theorem window_beyond (beyond : ∀ entry ∈ log, through < position entry) :
    window position after through log = [] := by
  refine List.filter_eq_nil_iff.mpr fun entry mem => ?_
  have above : through < position entry := beyond entry mem
  simp only [decide_eq_true_eq]
  omega

theorem window_grown (beyond : ∀ entry ∈ more, through < position entry) :
    window position after through (log ++ more) = window position after through log := by
  rw [window_append, window_beyond beyond, List.append_nil]

/-- Two windows that meet, one after the other. -/
theorem Ordered.window_join (ordered : Ordered position log) (first : after ≤ middle)
    (second : middle ≤ through) : window position after through log =
      window position after middle log ++ window position middle through log := by
  induction log with
  | nil => rfl
  | cons entry rest ih =>
    obtain ⟨above, ordered⟩ := ordered_cons.mp ordered
    have joined := ih ordered
    simp only [Logical.window, List.filter_cons, decide_eq_true_eq] at joined ⊢
    rcases Nat.lt_or_ge middle (position entry) with late | early
    · have beyond : window position after middle rest = [] :=
        window_beyond fun other mem => Nat.lt_trans late (above other mem)
      simp only [Logical.window] at beyond
      rw [joined, beyond, if_neg (show ¬(after < position entry ∧ position entry ≤ middle) by omega)]
      by_cases inside : position entry ≤ through
      · rw [if_pos ⟨by omega, inside⟩, if_pos ⟨late, inside⟩]
        rfl
      · rw [if_neg (fun both => inside both.2), if_neg (fun both => inside both.2)]
    · rw [if_neg (show ¬(middle < position entry ∧ position entry ≤ through) by omega), joined]
      by_cases inside : after < position entry
      · rw [if_pos ⟨inside, by omega⟩, if_pos ⟨inside, early⟩]
        rfl
      · rw [if_neg (fun both => inside both.1), if_neg (fun both => inside both.1)]

/-- Past an entry of a window lies the rest of the window. -/
theorem Ordered.window_past {read rest : List α} (ordered : Ordered position log)
    (parts : window position after through log = read ++ entry :: rest) :
    window position (position entry) through log = rest := by
  have inside : after < position entry ∧ position entry ≤ through := by
    have mem : entry ∈ window position after through log := by rw [parts]; simp
    exact (mem_window.mp mem).2
  have sorted : Ordered position (read ++ entry :: rest) := parts ▸ ordered.of_window after through
  obtain ⟨_, tail, before⟩ := ordered_append.mp sorted
  have later : ∀ other ∈ rest, position entry < position other := (ordered_cons.mp tail).1
  have narrowed : window position (position entry) through log =
      (window position after through log).filter fun other => position entry < position other := by
    unfold Logical.window
    rw [List.filter_filter]
    refine List.filter_congr fun other _ => ?_
    have narrow : (position entry < position other ∧ position other ≤ through) ↔
        position entry < position other ∧ after < position other ∧ position other ≤ through := by
      omega
    simpa only [← Bool.decide_and] using decide_eq_decide.mpr narrow
  have skipped : read.filter (fun other => position entry < position other) = [] := by
    refine List.filter_eq_nil_iff.mpr fun other mem => ?_
    have early : position other < position entry := before other mem entry List.mem_cons_self
    simp only [decide_eq_true_eq]
    omega
  have kept : rest.filter (fun other => position entry < position other) = rest :=
    List.filter_eq_self.mpr fun other mem => decide_eq_true (later other mem)
  rw [narrowed, parts, List.filter_append, skipped, List.filter_cons_of_neg (by simp), kept,
    List.nil_append]

/-- What is read of a window's front is the window up to the last entry read. -/
theorem Ordered.window_prefix {read : List α} (ordered : Ordered position log)
    (front : read <+: window position after through log) :
    read = window position after ((read.getLast?.map position).getD after) log := by
  induction read using List.reverseRecOn with
  | nil => exact (window_eq_nil (Nat.le_refl after)).symm
  | append_singleton early last _ =>
    obtain ⟨rest, parts⟩ := front
    have split : window position after through log = early ++ last :: rest := by
      rw [← parts, List.append_assoc, List.singleton_append]
    have inside : after < position last ∧ position last ≤ through := by
      have mem : last ∈ window position after through log := by rw [split]; simp
      exact (mem_window.mp mem).2
    have joined := ordered.window_join (Nat.le_of_lt inside.1) inside.2
    rw [ordered.window_past split, ← parts] at joined
    simpa using List.append_cancel_right joined

end Nits.Logical
