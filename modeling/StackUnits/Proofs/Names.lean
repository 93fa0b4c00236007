import Mathlib.Data.List.Nodup
import StackUnits.Proofs.Compiled

/-!
# The names of units

The units of a compilation have names that can serve as file names, and no two of them have the
same (`StackUnits.Session.wellNamed_of_compileNamed`). A name is checked when its unit is begun,
against the units that are finished and those that are begun, so what is kept along the way has to
be about both: a finished unit has a name of its own, which is not that of a unit still to be
finished (`StackUnits.World.Orderly`).
-/

namespace StackUnits

/-- **Units with names in order**: plain, and different from each other. -/
structure WellNamed (units : List CodeUnit) : Prop where
  plain : ∀ unit ∈ units, PlainName unit.name
  nodup : (units.map CodeUnit.name).Nodup

/-- A unit is known by its name, so that what is said of names in a batch is said of units. -/
theorem WellNamed.eq_of_name {units : List CodeUnit} (h : WellNamed units) {unit unit' : CodeUnit}
    (hunit : unit ∈ units) (hunit' : unit' ∈ units) (hname : unit.name = unit'.name) :
    unit = unit' :=
  List.inj_on_of_nodup_map h.nodup hunit hunit' hname

/-- A unit does not come a second time: when its turn has come, it is not among those before it. -/
theorem WellNamed.not_mem_before {units before rest : List CodeUnit} {unit : CodeUnit}
    (h : WellNamed units) (hunits : units = before ++ unit :: rest) : unit ∉ before := by
  have hnodup : units.Nodup := h.nodup.of_map
  rw [hunits, List.nodup_append] at hnodup
  exact fun hmem => hnodup.2.2 unit hmem unit List.mem_cons_self rfl

/-- **Finished units with names in order**: their names are also different from those of the
units that are begun. -/
structure World.Orderly (w : World) (units : List CodeUnit) : Prop extends WellNamed units where
  apart : ∀ unit ∈ units, ∀ entry ∈ w.begun, entry.1 ≠ unit.name

namespace World.Orderly

variable {w : World} {units : List CodeUnit} {name : String} {kind : UnitKind}

/-- A unit is begun under a name that is not in use, by a finished unit or by one that is begun. -/
theorem begin (h : w.Orderly units) (hunused : w.Unused units name) :
    (w.begin name kind).Orderly units where
  plain := h.plain
  nodup := h.nodup
  apart := by
    rintro unit hunit entry (_ | ⟨_, hentry⟩)
    · exact (hunused.1 unit hunit).symm
    · exact h.apart unit hunit entry hentry

/-- The unit begun last is finished: its name goes over from the ones to the others. That it was
unused when it was begun is what keeps the names different. -/
theorem finish (h : (w.begin name kind).Orderly units) (hplain : PlainName name)
    (hunused : ∀ entry ∈ w.begun, entry.1 ≠ name) {unit : CodeUnit} (hname : unit.name = name) :
    w.Orderly (units ++ [unit]) where
  plain := by
    intro other hother
    rcases List.mem_append.1 hother with hother | hother
    · exact h.plain other hother
    · rw [List.mem_singleton.1 hother, hname]
      exact hplain
  nodup := by
    have hnew : ∀ other ∈ units, other.name ≠ name := fun other hother =>
      (h.apart other hother (name, kind) List.mem_cons_self).symm
    rw [List.map_append, List.nodup_append]
    refine ⟨h.nodup, List.nodup_singleton _, ?_⟩
    rintro _ hother _ (_ | ⟨_, ⟨⟩⟩)
    obtain ⟨other, hmem, rfl⟩ := List.mem_map.1 hother
    exact hname ▸ hnew other hmem
  apart := by
    intro other hother entry hentry
    rcases List.mem_append.1 hother with hother | hother
    · exact h.apart other hother entry (List.mem_cons_of_mem _ hentry)
    · rw [List.mem_singleton.1 hother, hname]
      exact hunused entry hentry

end World.Orderly

/-- **Names stay in order** along the code of a statement. The case that matters is a task given on
the spot, in which further tasks may be finished before the task itself is. -/
theorem Stmt.HasCode.orderly {s : Stmt} {w : World} {d d' : Draft} {code : List Instruction}
    (h : s.HasCode w d code d') (hd : w.Orderly d.units) : w.Orderly d'.units := by
  induction h with
  | nothing | assign | print | assert | sleep | spawn => exact hd
  | sequence _ _ ih₁ ih₂ => exact ih₂ (ih₁ hd)
  | block _ ih | ifThen _ _ _ ih | loop _ _ _ ih => exact ih hd
  | ifElse _ _ _ _ iht ihe => exact ihe (iht hd)
  | spawnInline hplain hunused _ _ ih => exact (ih (hd.begin hunused)).finish hplain hunused.2 rfl

/-- **The units of a compilation** have plain names, all different. The program is begun first and
finished last, so that no task can take its name. -/
theorem Session.wellNamed_of_compileNamed {name : String} {tree : Tree} {session after : Session}
    {c : Compilation} (h : compileNamed name tree session = .ok c after) : WellNamed c.units := by
  obtain ⟨hplain, code, d, hcode, rfl, -⟩ := (compileNamed_iff session).1 ⟨after, h⟩
  have hempty : (World.ofProgram session.config session.resolver name).Orderly [] :=
    ⟨⟨nofun, List.nodup_nil⟩, nofun⟩
  have horderly := hcode.orderly hempty
  constructor
  · rintro unit (_ | ⟨_, hunit⟩)
    · exact hplain
    · exact horderly.plain unit hunit
  · refine List.nodup_cons.2 ⟨fun hmem => ?_, horderly.nodup⟩
    obtain ⟨unit, hunit, hname⟩ := List.mem_map.1 hmem
    exact horderly.apart unit hunit (name, .program) List.mem_cons_self hname.symm

end StackUnits
