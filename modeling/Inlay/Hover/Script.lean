import Inlay.Hover.Service

/-!
Services that follow a script: the first rule that agrees with a query decides the answer.
-/

namespace Inlay.Hover

/-- A scripted answer. -/
inductive Line
  | fixed (reply : Reply)
  /-- Says which service was asked about which place, and in which query. -/
  | echo

/-- A condition on a query, and the answer where it holds. -/
structure Rule where
  line : Option Nat
  character : Option Nat
  call : Option Nat
  answer : Line

structure Script where
  rules : List Rule
  fallback : Line
  rounds : Nat

def Rule.covers (r : Rule) (call : Nat) (place : Position) : Bool :=
  r.line.all (· == place.line) && r.character.all (· == place.character) && r.call.all (· == call)

/-- The reply that a scripted answer stands for. -/
def Line.reply (service : String) (call : Nat) (place : Position) : Line → Reply
  | fixed reply => reply
  | echo =>
    .ok (some (.scalar (.plain s!"{service}@{place.line}:{place.character}#{call}")))

def Script.service (s : Script) (name : String) : Service where
  name := name
  rounds := s.rounds
  answer := fun call place =>
    (((s.rules.find? (·.covers call place)).map Rule.answer).getD s.fallback).reply name call place

end Inlay.Hover
