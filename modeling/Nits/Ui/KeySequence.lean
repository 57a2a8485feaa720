import Nits.Keyboard.Keymap

/-!
# Predicting what keys mean

The interface reads a key event before the core does: it spells the chord, and compares
the text typed so far with the texts of the bindings that apply. While no two of these
share their keys under two commands, it predicts what the core makes of every chord.
-/

namespace Nits.Ui.KeySequence

open Keyboard

/-! ## Capturing -/

/-- The keymap's spelling of a chord. -/
def text (chord : KeyChord) : List Char :=
  (if chord.mods.ctrl then ['c', 't', 'r', 'l', '+'] else []) ++
    (if chord.mods.alt then ['a', 'l', 't', '+'] else []) ++
    (if chord.mods.shift then ['s', 'h', 'i', 'f', 't', '+'] else []) ++
    (if chord.mods.super then ['m', 'e', 't', 'a', '+'] else []) ++
    match chord.key with
    | .char c => if c = ' ' then ['s', 'p', 'a', 'c', 'e'] else [c]
    | .named key => key.text

/-! ## Predicting -/

section

variable {Command : Type}

/-- A command, the start of a longer sequence, or nothing at all. -/
inductive Outcome (Command : Type)
  | runs (command : Command)
  | prefix_
  | unbound

/-- The texts in progress after a chord, and what the core will make of it. A key that
cancels a sequence is consumed. -/
def step (keys : List (List Char)) (bindings : List (Hint Command)) (chord : KeyChord) :
    List (List Char) × Outcome Command :=
  let typed := keys ++ [text chord]
  let text := [' '].intercalate typed
  let exact := bindings.find? fun hint => hint.keys = text
  let longer := bindings.any fun hint => (text ++ [' ']).isPrefixOf hint.keys
  match exact, longer with
  | some hint, _ => ([], .runs hint.command)
  | none, true => (typed, .prefix_)
  | none, false => ([], if keys.length > 0 then .prefix_ else .unbound)

/-- What the interface should predict of a chord, by whether a sequence was in progress. -/
def predicted (pending : Bool) : Keymap.Verdict Command → Outcome Command
  | .runs command => .runs command
  | .pending | .cancelled => .prefix_
  | .text => if pending then .prefix_ else .unbound
  | .unbound _ => .unbound

/-! ## Spellings -/

variable {chord : KeyChord} {chords others : List KeyChord} {map : Keymap Command}
  {context : Context}

theorem text_eq : text chord = chord.text := by
  obtain ⟨code, ⟨_ | _, _ | _, _ | _, _ | _⟩⟩ := chord <;> cases code <;> rfl

/-- The core's chords in progress, and what should be predicted, key by key. Each key comes
with the context it lands in. -/
def resolved (map : Keymap Command) : List KeyChord → List (Context × KeyChord) →
    List KeyChord × List (Outcome Command)
  | chords, [] => (chords, [])
  | chords, (context, chord) :: rest =>
    let (next, verdict) := map.key context chords chord
    let (last, outcomes) := resolved map next rest
    (last, predicted (decide (chords ≠ [])) verdict :: outcomes)

end

end Nits.Ui.KeySequence
