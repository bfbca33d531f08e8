import PullParse.Proofs.Reading.Basic

/-!
# The window of a reading

A reading looks at a window of the stream: at every position from its start on,
up to some position, and at no others. If another stream shows the same tokens
in a window somewhere else, then the reading from there does the same things,
with every position moved. What it sees is nothing but the window, so this is
kept when readings follow each other, as long as each starts inside the window
of those before it.
-/

namespace PullParse

variable {α β : Type}

/-! ## Moved positions -/

def State.moved (d : Int) (s : State) : State := { s with position := s.position + d }

/-- States with the same user data differ by their distance. -/
theorem State.moved_sub {s s' : State} (h : s'.userData = s.userData) :
    s.moved (s'.position - s.position) = s' := by
  cases s
  cases s'
  cases h
  simp [moved]

def Outcome.moved (d : Int) : Outcome → Outcome
  | .matched value s => .matched value (s.moved d)
  | .noMatch => .noMatch

/-- Moves the position that a fault of the library carries. -/
def Fault.moved (d : Int) : Fault → Fault
  | .parse reason (.int k) => .parse reason (.int (k + d))
  | .stalled combinator (.int k) => .stalled combinator (.int (k + d))
  | fault => fault

/-- The fault carries no position. -/
def Fault.Unplaced (fault : Fault) : Prop := ∀ d, fault.moved d = fault

/-- What may have a place in the stream and can be moved. -/
class Placed (α : Type) where
  moved : Int → α → α
  place? : α → Option Int

namespace Placed

/-- What has no place stays as it is. -/
@[reducible] def nowhere : Placed α := ⟨fun _ a => a, fun _ => none⟩

instance : Placed (Value × Value) := nowhere

instance : Placed Outcome where
  moved := Outcome.moved
  place?
    | .matched _ s => some s.position
    | .noMatch => none

instance : Placed (List Value × State) where
  moved d all := (all.1, all.2.moved d)
  place? all := some all.2.position

instance : Placed (Option (List Value × State)) where
  moved d := Option.map fun all => (all.1, all.2.moved d)
  place? := Option.map fun all => all.2.position

end Placed

open Placed (place?)

/-- Two results that differ in their positions alone. The faults that come from elsewhere are the
same. -/
inductive Moved [Placed α] (foreign : Fault → Prop) (d : Int) :
    Option (Except Fault α) → Option (Except Fault α) → Prop
  | ok (a : α) : Moved foreign d (some (.ok a)) (some (.ok (Placed.moved d a)))
  | fault (fault : Fault) : Moved foreign d (some (.error fault)) (some (.error (fault.moved d)))
  | foreign {fault : Fault} (h : foreign fault) :
      Moved foreign d (some (.error fault)) (some (.error fault))
  | unfinished : Moved foreign d none none

/-- A fault that comes from elsewhere, or that carries no position. -/
theorem Moved.unmoved [Placed α] {foreign : Fault → Prop} {d : Int} {fault : Fault}
    (h : foreign fault ∨ fault.Unplaced) :
    Moved foreign d (some (.error fault) : Option (Except Fault α)) (some (.error fault)) := by
  rcases h with hforeign | hunplaced
  · exact .foreign hforeign
  · have hmoved : Moved foreign d (some (.error fault) : Option (Except Fault α))
        (some (.error (fault.moved d))) := .fault fault
    rwa [hunplaced] at hmoved

theorem Moved.of_none [Placed α] {foreign : Fault → Prop} {d : Int}
    {moved : Option (Except Fault α)} (h : Moved foreign d none moved) : moved = none := by
  cases h
  rfl

theorem Moved.of_ok [Placed α] {foreign : Fault → Prop} {d : Int} {a : α}
    {moved : Option (Except Fault α)} (h : Moved foreign d (some (.ok a)) moved) :
    moved = some (.ok (Placed.moved d a)) := by
  cases h
  rfl

/-- A fault is moved in the same way whatever it is raised in place of. -/
theorem Moved.of_error [Placed α] [Placed β] {foreign : Fault → Prop} {d : Int} {fault : Fault}
    {moved : Option (Except Fault α)} (h : Moved foreign d (some (.error fault)) moved) :
    ∃ fault', moved = some (.error fault') ∧
      Moved foreign d (some (.error fault) : Option (Except Fault β)) (some (.error fault')) := by
  cases h with
  | fault => exact ⟨_, rfl, .fault fault⟩
  | foreign hforeign => exact ⟨_, rfl, .foreign hforeign⟩

/-- A moved result is there if the other one is. -/
theorem Moved.exists_some [Placed α] {foreign : Fault → Prop} {d : Int} {result : Except Fault α}
    {moved : Option (Except Fault α)} (h : Moved foreign d (some result) moved) :
    ∃ result', moved = some result' := by
  cases h with
  | ok a => exact ⟨_, rfl⟩
  | fault fault => exact ⟨_, rfl⟩
  | foreign h => exact ⟨_, rfl⟩

/-! ## Windows -/

/-- Two streams, the second one moved against the first, and the faults that come from elsewhere. -/
structure Displacement where
  stream : TokenStream
  other : TokenStream
  distance : Int
  foreign : Fault → Prop

/-- The streams show the same tokens in a window of the first one. -/
def Displacement.Agrees (D : Displacement) (start : Int) (n : Nat) : Prop :=
  ∀ k, start ≤ k → k < start + n → D.other (k + D.distance).toNat = D.stream k.toNat

theorem Displacement.Agrees.mono {D : Displacement} {start start' : Int} {n n' : Nat}
    (h : D.Agrees start n) (hstart : start ≤ start') (hend : start' + n' ≤ start + n) :
    D.Agrees start' n' :=
  fun k hk hk' => h k (by omega) (by omega)

/-- Windows can be compared from their starts on. -/
theorem Displacement.Agrees.of_starts {t t' : TokenStream} {foreign : Fault → Prop}
    {start start' : Int} {n : Nat} (hstart : 0 ≤ start) (hstart' : 0 ≤ start')
    (h : ∀ i < n, t' (start'.toNat + i) = t (start.toNat + i)) :
    Displacement.Agrees ⟨t, t', start' - start, foreign⟩ start n := by
  intro k hk hk'
  have htoken := h (k - start).toNat (by omega)
  have hindex : start'.toNat + (k - start).toNat = (k + (start' - start)).toNat := by omega
  have hindex' : start.toNat + (k - start).toNat = k.toNat := by omega
  rwa [hindex, hindex'] at htoken

/-- The reading looks at the positions of a window and at no others, and ends at its edges or
inside. -/
structure Reading.Within [Placed α] (x : Reading α) (start : Int) (n : Nat) : Prop where
  examined_iff : ∀ k, k ∈ x.examined ↔ start ≤ k ∧ k < start + n
  place : ∀ a p, x.result = some (.ok a) → place? a = some p → start ≤ p ∧ p ≤ start + n

/-- The first reading has a window from `start` on, and the second one looks at the moved positions
and has the moved result, if the streams agree on that window. -/
def Reading.Follows [Placed α] (D : Displacement) (start : Int) (x y : Reading α) : Prop :=
  ∃ n, x.Within start n ∧
    (D.Agrees start n →
      y.examined = x.examined.map (· + D.distance) ∧
        Moved D.foreign D.distance x.result y.result)

namespace Reading.Follows

variable [Placed α] [Placed β] {D : Displacement} {start : Int} {x y : Reading α}

/-- A reading that looks at nothing has the empty window. -/
theorem unseeing {result result' : Option (Except Fault α)}
    (hplace : ∀ a p, result = some (.ok a) → place? a = some p → p = start)
    (h : Moved D.foreign D.distance result result') :
    Follows D start ⟨result, []⟩ ⟨result', []⟩ := by
  refine ⟨0, ⟨fun k => ?_, fun a p hresult hp => ?_⟩, fun _ => ⟨rfl, h⟩⟩
  · simp only [List.not_mem_nil, false_iff, not_and]
    omega
  · have := hplace a p hresult hp
    omega

theorem pure (a : α) (ha : ∀ p, place? a = some p → p = start) :
    Follows D start (Pure.pure a) (Pure.pure (Placed.moved D.distance a)) := by
  refine unseeing ?_ (.ok a)
  rintro _ p ⟨⟩ hp
  exact ha p hp

theorem raise (fault : Fault) :
    Follows D start (Reading.raise fault : Reading α)
      (Reading.raise (fault.moved D.distance)) :=
  unseeing nofun (.fault fault)

theorem raise_unmoved {fault : Fault} (h : D.foreign fault ∨ fault.Unplaced) :
    Follows D start (Reading.raise fault : Reading α) (Reading.raise fault) :=
  unseeing nofun (.unmoved h)

theorem unfinished :
    Follows D start (Reading.unfinished : Reading α) Reading.unfinished :=
  unseeing nofun .unfinished

/-- The result of a callback, which has no place. -/
theorem ofExcept {result : Except Fault α} (hplace : ∀ a : α, place? a = none)
    (hmoved : ∀ a : α, Placed.moved D.distance a = a)
    (hfault : ∀ fault, result = .error fault → D.foreign fault ∨ fault.Unplaced) :
    Follows D start (Reading.ofExcept result) (Reading.ofExcept result) := by
  cases result with
  | ok a =>
      have hpure : Follows D start (Pure.pure a) (Pure.pure (Placed.moved D.distance a)) := by
        apply pure
        intro p hp
        rw [hplace a] at hp
        cases hp
      rwa [hmoved] at hpure
  | error fault => exact raise_unmoved (hfault fault rfl)

/-- A reading that looks at one token has it as its window, and may end behind it. -/
theorem seeing {result result' : Option (Except Fault α)}
    (hplace : ∀ a p, result = some (.ok a) → place? a = some p → p = start ∨ p = start + 1)
    (h : D.other (start + D.distance).toNat = D.stream start.toNat →
      Moved D.foreign D.distance result result') :
    Follows D start ⟨result, [start]⟩ ⟨result', [start + D.distance]⟩ := by
  refine ⟨1, ⟨fun k => ?_, fun a p hresult hp => ?_⟩, fun hagrees => ⟨rfl, h ?_⟩⟩
  · rw [List.mem_singleton]
    omega
  · have := hplace a p hresult hp
    omega
  · exact hagrees start le_rfl (by omega)

/-- One reading after another, which goes on from where the first one started or from where it has
ended. The window is that of both. -/
theorem bind {f g : α → Reading β} (h : Follows D start x y)
    (hf : ∀ a, x.result = some (.ok a) → ∃ p, (p = start ∨ place? a = some p) ∧
      Follows D p (f a) (g (Placed.moved D.distance a))) :
    Follows D start (x >>= f) (y >>= g) := by
  obtain ⟨n, hwithin, hfollows⟩ := h
  cases hresult : x.result with
  | none =>
      rw [bind_of_unfinished hresult]
      refine ⟨n, ⟨hwithin.examined_iff, nofun⟩, fun hagrees => ?_⟩
      obtain ⟨hexamined, hmoved⟩ := hfollows hagrees
      rw [hresult] at hmoved
      rw [bind_of_unfinished hmoved.of_none]
      exact ⟨hexamined, .unfinished⟩
  | some result =>
      cases result with
      | error fault =>
          rw [bind_of_error hresult]
          refine ⟨n, ⟨hwithin.examined_iff, nofun⟩, fun hagrees => ?_⟩
          obtain ⟨hexamined, hmoved⟩ := hfollows hagrees
          rw [hresult] at hmoved
          obtain ⟨fault', hresult', hfault⟩ := hmoved.of_error (β := β)
          rw [bind_of_error hresult']
          exact ⟨hexamined, hfault⟩
      | ok a =>
          obtain ⟨p, hp, m, hwithin', hfollows'⟩ := hf a hresult
          have hinside : start ≤ p ∧ p ≤ start + n := by
            rcases hp with rfl | hp
            · omega
            · exact hwithin.place a p hresult hp
          -- the union of two windows, of which the second starts inside the first or at its edge
          refine ⟨max n ((p - start).toNat + m), ⟨fun k => ?_, fun b q hb hq => ?_⟩,
            fun hagrees => ?_⟩
          · rw [bind_of_ok hresult, List.mem_append, hwithin.examined_iff, hwithin'.examined_iff]
            omega
          · rw [bind_of_ok hresult] at hb
            have := hwithin'.place b q hb hq
            omega
          · obtain ⟨hexamined, hmoved⟩ := hfollows (hagrees.mono le_rfl (by omega))
            obtain ⟨hexamined', hmoved'⟩ := hfollows' (hagrees.mono hinside.1 (by omega))
            rw [hresult] at hmoved
            rw [bind_of_ok hresult, bind_of_ok hmoved.of_ok, hexamined, hexamined', List.map_append]
            exact ⟨rfl, hmoved'⟩

end Reading.Follows

end PullParse
