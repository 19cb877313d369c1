import Mathlib.Data.List.Basic
import PoolWatch.Fetch
import PoolWatch.Proofs.Json.Records
/-!
# Reports are read as they are spelled

A text is a report just when it spells a list of groups, and then it is read as these groups.  It
ends with the bracket that closes the list, so no part of it that is cut short is a report.
-/

namespace PoolWatch.Report

open PoolWatch.Json

def SpellsGpu : Spelling Gpu := fun gpu s =>
  ∃ row, gpuOfRow row = gpu ∧ gpuShape.Spells (fun _ _ => False) row s

def SpellsWorkstation : Spelling Workstation := fun workstation s =>
  ∃ row, workstationOfRow row = workstation ∧ workstationShape.Spells SpellsGpu row s

def SpellsGroup : Spelling Group := fun group s =>
  ∃ row, groupOfRow row = group ∧ groupShape.Spells SpellsWorkstation row s

/-- The text is a list of the groups, with nothing but white space around it. -/
def Spells (groups : List Group) (text : List UInt8) : Prop :=
  ∃ w s w', Blank w ∧ Blank w' ∧ SpellsList SpellsGroup groups s ∧ text = w ++ (s ++ w')

/-! ## Reading -/

theorem reads_noElement : Reads noElement fun _ _ => False where
  opens := False.elim
  sound := nofun
  complete _ := False.elim

theorem reads_gpu : Reads readGpu SpellsGpu :=
  (Shape.reads reads_noElement gpuShape (by decide)).map gpuOfRow

theorem reads_workstation : Reads readWorkstation SpellsWorkstation :=
  (Shape.reads reads_gpu workstationShape (by decide)).map workstationOfRow

theorem reads_group : Reads readGroup SpellsGroup :=
  (Shape.reads reads_workstation groupShape (by decide)).map groupOfRow

theorem parse_eq_ok_iff {text : List UInt8} {groups : List Group} :
    parse text = .ok groups ↔ Spells groups text :=
  reads_group.list.readAll_eq_ok

/-! ## Texts that are refused -/

/-- The text is no report: reading it ends in a problem, and so does a fetch that it answers. -/
def Refused (text : List UInt8) : Prop :=
  ∃ problem, parse text = .error problem ∧ ∀ code, StatusClass.ofCode code = .ok →
    (Exchange.answered code text).outcome = .failure (.decode problem.message)

theorem refused_of_not_spells {text : List UInt8} (h : ∀ groups, ¬Spells groups text) :
    Refused text := by
  cases hparse : parse text with
  | ok groups => exact absurd (parse_eq_ok_iff.1 hparse) (h groups)
  | error problem =>
    refine ⟨problem, hparse, fun code hcode => ?_⟩
    simp only [Exchange.outcome, Exchange.fetch, Session.answered, decodeReport, hcode, hparse]

/-- A report that is cut short anywhere is refused. -/
theorem refused_of_cut {text cut : List UInt8} {groups : List Group}
    (hparse : parse text = .ok groups) (hlast : ∀ octet ∈ text.getLast?, isSpace octet = false)
    (hcut : cut <+: text) (hshort : cut ≠ text) : Refused cut := by
  refine refused_of_not_spells fun groups' hspells => ?_
  obtain ⟨more, rfl⟩ := hcut
  have hmore : more ≠ [] := by
    rintro rfl
    exact hshort (List.append_nil cut).symm
  have hblank : Blank more := blank_of_readAll_list reads_group (parse_eq_ok_iff.2 hspells) hparse
  rw [List.getLast?_append_of_ne_nil _ hmore, List.getLast?_eq_some_getLast hmore] at hlast
  have hend := hlast _ rfl
  rw [hblank _ (List.getLast_mem hmore)] at hend
  cases hend

theorem refused_of_cut_in_name :
    Refused (octets "[\x7b\"name\":\"a") := by
  have hparse :
      parse (octets "[\x7b\"name\":\"a\",\"workstations\":[]\x7d]") = .ok [⟨"a", []⟩] := by
    decide +kernel
  exact refused_of_cut hparse (by decide +kernel) (by decide +kernel) (by decide +kernel)

end PoolWatch.Report
