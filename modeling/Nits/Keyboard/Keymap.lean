import Nits.Keyboard.Chord

/-!
# The keymap

A table of bindings, what chords mean where the focus is, and the conflicts that are
reported of a table. Typing a binding's keys runs its command, unless a conflict was
reported or the other table that applies cuts the keys short.
-/

namespace Nits.Keyboard

variable {Command : Type}

/-! ## Bindings -/

/-- Where the focus is; decides which bindings apply. -/
inductive Context
  | global | reviewList | tree | diff | thread | requests | composer | commitStepper | help
  deriving DecidableEq

def Context.all : List Context :=
  [.global, .reviewList, .tree, .diff, .thread, .requests, .composer, .commitStepper, .help]

/-- One row of the table. -/
structure Binding (Command : Type) where
  context : Context
  keys : KeySeq
  command : Command

/-- The bindings in force. -/
structure Keymap (Command : Type) where
  bindings : List (Binding Command)

/-- What a sequence of chords means. -/
inductive Lookup (Command : Type)
  | command (command : Command)
  | prefix_
  | none

/-- Two bindings that cannot both fire. -/
structure Conflict (Command : Type) where
  context : Context
  keys : KeySeq
  commands : List Command

/-- A binding that applies where the focus is, as the interface sees it. -/
structure Hint (Command : Type) where
  keys : List Char
  command : Command

namespace Keymap

variable (map : Keymap Command)

/-- Bindings that apply in the context: its own and the global ones. -/
def applicable (context : Context) : List (Binding Command) :=
  map.bindings.filter fun b => b.context = context ∨ b.context = .global ∧ context ≠ .global

def exact (pressed : List KeyChord) (context : Context) : Option Command :=
  (map.bindings.find? fun b => b.context = context ∧ b.keys.chords = pressed).map Binding.command

/-- A binding of the context itself shadows a global one with the same keys. -/
def lookup (context : Context) (pressed : List KeyChord) : Lookup Command :=
  match map.exact pressed context with
  | some command => .command command
  | none =>
    match if context ≠ .global then map.exact pressed .global else none with
    | some command => .command command
    | none =>
      if (map.applicable context).any fun b =>
          pressed.length < b.keys.chords.length && pressed.isPrefixOf b.keys.chords then .prefix_
      else .none

/-- What a key press turned out to mean. -/
inductive Verdict (Command : Type)
  | runs (command : Command)
  | pending
  /-- Text for the host's editor. -/
  | text
  | cancelled
  | unbound (keys : List Char)

/-- One chord after those in progress, and the chords in progress then. -/
def key (context : Context) (chords : List KeyChord) (chord : KeyChord) :
    List KeyChord × Verdict Command :=
  let pressed := chords ++ [chord]
  match map.lookup context pressed with
  | .prefix_ => (pressed, .pending)
  | .command command => ([], .runs command)
  | .none =>
    if context = .composer then ([], .text)
    else if chords ≠ [] then ([], .cancelled)
    else match KeySeq.new pressed with
      | .ok keys => ([], .unbound keys.text)
      | .error _ => ([], .unbound chord.text)

/-- The first command that typing the chords runs. -/
def firstRun (context : Context) : List KeyChord → List KeyChord → Option Command
  | _, [] => none
  | chords, chord :: rest =>
    match map.key context chords chord with
    | (_, .runs command) => some command
    | (chords, _) => firstRun context chords rest

/-! ## Conflicts -/

section

variable [DecidableEq Command]

/-- The pairs of a list, each element with the later ones. -/
def pairs {α : Type} : List α → List (α × α)
  | [] => []
  | head :: tail => tail.map (fun later => (head, later)) ++ pairs tail

/-- Same keys, or one sequence a prefix of the other. -/
def clash (a b : Binding Command) : Bool :=
  a.keys = b.keys || b.keys.chords.isPrefixOf a.keys.chords ||
    a.keys.chords.isPrefixOf b.keys.chords

def shorter (a b : Binding Command) : KeySeq :=
  if a.keys.chords.length ≤ b.keys.chords.length then a.keys else b.keys

/-- The commands that are not named yet are named last. -/
def merge (held commands : List Command) : List Command :=
  commands.foldl (fun held command => if command ∈ held then held else held ++ [command]) held

/-- Add the commands to the context's conflict on the keys, which is made when there is
none. -/
def record (context : Context) (keys : KeySeq) (commands : List Command) :
    List (Conflict Command) → List (Conflict Command)
  | [] => [⟨context, keys, commands⟩]
  | conflict :: rest =>
    if conflict.context = context ∧ conflict.keys = keys then
      { conflict with commands := merge conflict.commands commands } :: rest
    else conflict :: record context keys commands rest

def note (out : List (Conflict Command)) (found : Context × Binding Command × Binding Command) :
    List (Conflict Command) :=
  let (context, a, b) := found
  if clash a b = false ∨ a.command = b.command then out
  else record context (shorter a b) [a.command, b.command] out

/-- Every two rows of one context, context by context. -/
def candidates : List (Context × Binding Command × Binding Command) :=
  Context.all.flatMap fun context =>
    (pairs (map.bindings.filter fun b => b.context = context)).map fun pair => (context, pair)

/-- Bindings that cannot both fire. -/
def conflicts : List (Conflict Command) := map.candidates.foldl note []

end

end Keymap

section Conflicts

open Keymap

variable [DecidableEq Command] {map : Keymap Command} {context other : Context}
  {keys keys' : KeySeq}
  {command : Command} {commands : List Command} {out : List (Conflict Command)}

/-- A conflict on the keys names the command. -/
def Reports (out : List (Conflict Command)) (context : Context) (keys : KeySeq)
    (command : Command) : Prop :=
  ∃ conflict ∈ out, conflict.context = context ∧ conflict.keys = keys ∧
    command ∈ conflict.commands

/-- One conflict for each context and keys, which names each command once. -/
structure Tidy (out : List (Conflict Command)) : Prop where
  apart : (out.map fun conflict => (conflict.context, conflict.keys)).Nodup
  once : ∀ conflict ∈ out, conflict.commands.Nodup

theorem mem_merge {held : List Command} :
    command ∈ merge held commands ↔ command ∈ held ∨ command ∈ commands := by
  unfold merge
  induction commands generalizing held with
  | nil => simp
  | cons first rest ih =>
    rw [List.foldl_cons, ih]
    split
    · next inside =>
      rw [List.mem_cons]
      constructor
      · rintro (before | later)
        · exact .inl before
        · exact .inr (.inr later)
      · rintro (before | rfl | later)
        · exact .inl before
        · exact .inl inside
        · exact .inr later
    · simp [or_assoc]

theorem nodup_merge {held : List Command} (distinct : held.Nodup) :
    (merge held commands).Nodup := by
  unfold merge
  induction commands generalizing held with
  | nil => exact distinct
  | cons first rest ih =>
    rw [List.foldl_cons]
    refine ih ?_
    split
    · exact distinct
    · next fresh => exact List.nodup_append.mpr ⟨distinct, List.nodup_singleton _, by
        rintro _ inside _ mem rfl
        exact fresh (List.mem_singleton.mp mem ▸ inside)⟩

theorem reports_record : Reports (record context keys commands out) other keys' command ↔
    Reports out other keys' command ∨ other = context ∧ keys' = keys ∧ command ∈ commands := by
  induction out with
  | nil => simp [record, Reports, eq_comm]
  | cons conflict rest ih =>
    unfold record
    split
    · next same =>
      obtain ⟨rfl, rfl⟩ := same
      simp only [Reports, List.exists_mem_cons_iff, mem_merge]
      constructor
      · rintro (⟨rfl, rfl, before | new⟩ | later)
        · exact .inl (.inl ⟨rfl, rfl, before⟩)
        · exact .inr ⟨rfl, rfl, new⟩
        · exact .inl (.inr later)
      · rintro ((⟨rfl, rfl, before⟩ | later) | ⟨rfl, rfl, new⟩)
        · exact .inl ⟨rfl, rfl, .inl before⟩
        · exact .inr later
        · exact .inl ⟨rfl, rfl, .inr new⟩
    · have rest' := ih
      unfold Reports at rest' ⊢
      rw [List.exists_mem_cons_iff, List.exists_mem_cons_iff, rest', or_assoc]

theorem keys_record : (record context keys commands out).map
      (fun conflict => (conflict.context, conflict.keys)) =
    let held := out.map fun conflict => (conflict.context, conflict.keys)
    if (context, keys) ∈ held then held else held ++ [(context, keys)] := by
  induction out with
  | nil => rfl
  | cons conflict rest ih =>
    unfold record
    split
    · next same => simp [same]
    · next differ =>
      have other : (context, keys) ≠ (conflict.context, conflict.keys) := by
        rintro same
        cases same
        exact differ ⟨rfl, rfl⟩
      simp only [List.map_cons, ih, List.mem_cons, other, false_or]
      split <;> rfl

theorem Tidy.record (tidy : Tidy out) (distinct : commands.Nodup) :
    Tidy (record context keys commands out) where
  apart := by
    rw [keys_record]
    dsimp only
    split
    · exact tidy.apart
    · next fresh => exact List.nodup_append.mpr ⟨tidy.apart, List.nodup_singleton _, by
        rintro _ inside _ mem rfl
        exact fresh (List.mem_singleton.mp mem ▸ inside)⟩
  once := by
    have once := tidy.once
    clear tidy
    induction out with
    | nil => simpa [Keymap.record] using distinct
    | cons conflict rest ih =>
      unfold Keymap.record
      split
      · rw [List.forall_mem_cons]
        exact ⟨nodup_merge (once _ List.mem_cons_self),
          fun other later => once other (List.mem_cons_of_mem _ later)⟩
      · rw [List.forall_mem_cons]
        exact ⟨once _ List.mem_cons_self,
          ih fun other later => once other (List.mem_cons_of_mem _ later)⟩

omit [DecidableEq Command] in
theorem tidy_nil : Tidy ([] : List (Conflict Command)) := ⟨List.nodup_nil, by simp⟩

theorem reports_foldl_note {found : List (Context × Binding Command × Binding Command)}
    (tidy : Tidy out) : Tidy (found.foldl note out) ∧
    ∀ context keys command, Reports (found.foldl note out) context keys command ↔
      Reports out context keys command ∨ ∃ a b, (context, a, b) ∈ found ∧
        clash a b = true ∧ a.command ≠ b.command ∧ keys = shorter a b ∧
          (command = a.command ∨ command = b.command) := by
  induction found generalizing out with
  | nil => exact ⟨tidy, by simp⟩
  | cons first found ih =>
    obtain ⟨context, a, b⟩ := first
    rw [List.foldl_cons]
    by_cases quiet : clash a b = false ∨ a.command = b.command
    · have same : note out (context, a, b) = out := if_pos quiet
      rw [same]
      obtain ⟨tidy', reports⟩ := ih tidy
      refine ⟨tidy', fun other keys command => ?_⟩
      rw [reports]
      refine or_congr_right (exists₂_congr fun c d => ?_)
      rw [List.mem_cons, or_and_right]
      refine (or_iff_right ?_).symm
      rintro ⟨same, clashes, differ, -⟩
      cases same
      exact quiet.elim (fun apart => by rw [apart] at clashes; cases clashes) differ
    · have noted : note out (context, a, b) =
          record context (shorter a b) [a.command, b.command] out := if_neg quiet
      rw [not_or, Bool.not_eq_false] at quiet
      rw [noted]
      have distinct : [a.command, b.command].Nodup := by simpa using quiet.2
      obtain ⟨tidy', reports⟩ := ih (tidy.record distinct)
      refine ⟨tidy', fun other keys command => ?_⟩
      rw [reports, reports_record, or_assoc]
      refine or_congr_right ?_
      simp only [List.mem_cons, List.not_mem_nil, or_false]
      constructor
      · rintro (⟨rfl, rfl, named⟩ | ⟨c, d, mem, clashes⟩)
        · exact ⟨a, b, .inl rfl, quiet.1, quiet.2, rfl, named⟩
        · exact ⟨c, d, .inr mem, clashes⟩
      · rintro ⟨c, d, same | mem, clashes⟩
        · cases same
          exact .inl ⟨rfl, clashes.2.2.1, clashes.2.2.2⟩
        · exact .inr ⟨c, d, mem, clashes⟩

theorem reports_conflicts : Reports map.conflicts context keys command ↔ ∃ a b,
    (a, b) ∈ pairs (map.bindings.filter fun row => row.context = context) ∧
      clash a b = true ∧ a.command ≠ b.command ∧ keys = shorter a b ∧
        (command = a.command ∨ command = b.command) := by
  have listed : context ∈ Context.all := by cases context <;> decide
  rw [Keymap.conflicts, (reports_foldl_note tidy_nil).2]
  simp [Reports, candidates, listed]

/-- The reported conflicts are the clashes of two commands in one context: each is named
once, under the shorter keys, and nothing else is. -/
theorem conflicts_exact : Tidy map.conflicts ∧ ∀ context keys command,
    Reports map.conflicts context keys command ↔ ∃ a b,
      (a, b) ∈ pairs (map.bindings.filter fun row => row.context = context) ∧
        clash a b = true ∧ a.command ≠ b.command ∧ keys = shorter a b ∧
          (command = a.command ∨ command = b.command) :=
  ⟨(reports_foldl_note tidy_nil).1, fun _ _ _ => reports_conflicts⟩

end Conflicts

/-! ## Reaching a binding -/

section Reaching

open Keymap

variable {map : Keymap Command} {context : Context} {b : Binding Command}
  {chords pressed rest : List KeyChord} {chord : KeyChord} {command : Command}

theorem mem_pairs {α : Type} {items : List α} {a b : α} (left : a ∈ items) (right : b ∈ items)
    (differ : a ≠ b) : (a, b) ∈ pairs items ∨ (b, a) ∈ pairs items := by
  induction items with
  | nil => cases left
  | cons head tail ih =>
    simp only [pairs, List.mem_append, List.mem_map, Prod.mk.injEq]
    rcases List.mem_cons.mp left with first | left
    · rcases List.mem_cons.mp right with second | right
      · exact absurd (first.trans second.symm) differ
      · exact .inl (.inl ⟨b, right, first.symm, rfl⟩)
    · rcases List.mem_cons.mp right with second | right
      · exact .inr (.inl ⟨a, left, second.symm, rfl⟩)
      · exact (ih left right).imp .inr .inr

theorem mem_applicable : b ∈ map.applicable context ↔
    b ∈ map.bindings ∧ (b.context = context ∨ b.context = .global ∧ context ≠ .global) := by
  simp [applicable]

theorem exact_eq_some (found : map.exact pressed context = some command) :
    ∃ b ∈ map.bindings, b.context = context ∧ b.keys.chords = pressed ∧ b.command = command := by
  obtain ⟨b, first, rfl⟩ := Option.map_eq_some_iff.mp found
  have named := List.find?_some first
  simp only [decide_eq_true_eq] at named
  exact ⟨b, List.mem_of_find?_eq_some first, named.1, named.2, rfl⟩

theorem exact_isSome (mem : b ∈ map.bindings) (keys : b.keys.chords = pressed) :
    (map.exact pressed b.context).isSome := by
  rw [exact, Option.isSome_map, List.find?_isSome]
  exact ⟨b, mem, by simpa using keys⟩

/-- A command is looked up from a binding that applies and has the keys. -/
theorem lookup_eq_command (found : map.lookup context pressed = .command command) :
    ∃ b ∈ map.applicable context, b.keys.chords = pressed ∧ b.command = command := by
  unfold lookup at found
  split at found
  · next own =>
    cases found
    obtain ⟨b, mem, here, keys, runs⟩ := exact_eq_some own
    exact ⟨b, mem_applicable.mpr ⟨mem, .inl here⟩, keys, runs⟩
  · split at found
    · next shared =>
      cases found
      split at shared
      · next elsewhere =>
        obtain ⟨b, mem, here, keys, runs⟩ := exact_eq_some shared
        exact ⟨b, mem_applicable.mpr ⟨mem, .inr ⟨here, elsewhere⟩⟩, keys, runs⟩
      · cases shared
    · split at found <;> cases found

/-- Where a binding applies its keys name a command, and what starts them is at least a
prefix. -/
theorem lookup_of_binding (mem : b ∈ map.applicable context) (starts : pressed <+: b.keys.chords) :
    (∃ command, map.lookup context pressed = .command command) ∨
      map.lookup context pressed = .prefix_ ∧ pressed.length < b.keys.chords.length := by
  obtain ⟨stored, applies⟩ := mem_applicable.mp mem
  unfold lookup
  split
  · exact .inl ⟨_, rfl⟩
  · next own =>
    split
    · exact .inl ⟨_, rfl⟩
    · next shared =>
      have short : pressed.length < b.keys.chords.length := by
        refine Nat.lt_of_le_of_ne starts.length_le fun same => ?_
        have found := exact_isSome stored (starts.eq_of_length same).symm
        rcases applies with here | ⟨here, elsewhere⟩
        · rw [here, own] at found
          cases found
        · rw [here] at found
          rw [if_pos elsewhere] at shared
          rw [shared] at found
          cases found
      refine .inr ⟨if_pos (List.any_eq_true.mpr ⟨b, mem, ?_⟩), short⟩
      simpa [short] using starts

/-- Typing a binding's keys runs a binding that its keys start with. -/
theorem firstRun_of_binding (mem : b ∈ map.applicable context)
    (typing : chords ++ rest = b.keys.chords) (more : rest ≠ []) :
    ∃ other ∈ map.applicable context, other.keys.chords <+: b.keys.chords ∧
      map.firstRun context chords rest = some other.command := by
  induction rest generalizing chords with
  | nil => exact absurd rfl more
  | cons chord rest ih =>
    have parted : (chords ++ [chord]) ++ rest = b.keys.chords := by
      rw [List.append_assoc]
      exact typing
    rcases lookup_of_binding mem ⟨rest, parted⟩ with ⟨command, found⟩ | ⟨found, short⟩
    · obtain ⟨other, applies, keys, runs⟩ := lookup_eq_command found
      refine ⟨other, applies, ⟨rest, by rw [keys]; exact parted⟩, ?_⟩
      simp only [firstRun, key, found, runs]
    · have left : rest ≠ [] := by
        rintro rfl
        rw [← parted, List.append_nil] at short
        exact absurd short (Nat.lt_irrefl _)
      obtain ⟨other, applies, starts, runs⟩ := ih parted left
      refine ⟨other, applies, starts, ?_⟩
      simp only [firstRun, key, found]
      exact runs

/-- Typing a binding's keys where it applies runs its command, unless a reported conflict
names it or its keys start with those of another command of the other table. -/
theorem reached_or_reported [DecidableEq Command] (mem : b ∈ map.applicable context) :
    map.firstRun context [] b.keys.chords = some b.command ∨
      (∃ keys, keys.chords <+: b.keys.chords ∧
        Reports map.conflicts b.context keys b.command) ∨
      ∃ other ∈ map.applicable context, other.context ≠ b.context ∧
        other.keys.chords <+: b.keys.chords ∧ other.command ≠ b.command := by
  obtain ⟨other, applies, starts, runs⟩ :=
    firstRun_of_binding mem (List.nil_append _) b.keys.nonempty
  by_cases same : other.command = b.command
  · exact .inl (same ▸ runs)
  by_cases apart : other.context = b.context
  · refine .inr (.inl ?_)
    have differ : other ≠ b := fun equal => same (congrArg _ equal)
    have row {c : Binding Command} (held : c ∈ map.applicable context)
        (here : c.context = b.context) :
        c ∈ map.bindings.filter fun row => row.context = b.context :=
      List.mem_filter.mpr ⟨(mem_applicable.mp held).1, by simpa using here⟩
    have short : other.keys.chords.length ≤ b.keys.chords.length := starts.length_le
    rcases mem_pairs (row applies apart) (row mem rfl) differ with found | found
    · refine ⟨shorter other b, by simpa [shorter, short] using starts, ?_⟩
      refine reports_conflicts.mpr ⟨other, b, found, ?_, same, rfl, .inr rfl⟩
      simp [clash, starts]
    · refine ⟨shorter b other, ?_, ?_⟩
      · unfold shorter
        split
        · exact List.prefix_rfl
        · exact starts
      · refine reports_conflicts.mpr ⟨b, other, found, ?_, Ne.symm same, rfl, .inl rfl⟩
        simp [clash, starts]
  · exact .inr (.inr ⟨other, applies, apart, starts, same⟩)

/-- Two jumps everywhere, and a row of the diff that cuts another short. -/
def goKeymap : Keymap Nat where
  bindings := [
    ⟨.global, ⟨[{ key := .char 'g' }, { key := .char 't' }], by decide⟩, 0⟩,
    ⟨.global, ⟨[{ key := .char 'g' }, { key := .char 'r' }], by decide⟩, 1⟩,
    ⟨.diff, ⟨[{ key := .char 'x' }], by decide⟩, 2⟩,
    ⟨.diff, ⟨[{ key := .char 'x' }, { key := .char 'y' }], by decide⟩, 3⟩]

/-- Typing `gr` runs its binding. -/
theorem reached_go : goKeymap.firstRun .diff [] [{ key := .char 'g' }, { key := .char 'r' }] =
    some 1 := by
  have reached := @reached_or_reported _ goKeymap .diff _ _
    (List.mem_cons_of_mem _ List.mem_cons_self)
  refine reached.resolve_right ?_
  rintro (⟨keys, -, conflict, reported, here, -⟩ | ⟨other, listed, differ, starts, -⟩)
  · rw [List.mem_singleton.mp reported] at here
    cases here
  · simp only [goKeymap, Keymap.applicable, List.mem_filter, List.mem_cons, List.not_mem_nil,
      or_false] at listed
    rcases listed.1 with rfl | rfl | rfl | rfl
    · exact differ rfl
    · exact differ rfl
    · revert starts
      decide
    · revert starts
      decide

end Reaching

end Nits.Keyboard
