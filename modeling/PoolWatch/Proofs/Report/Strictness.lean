import PoolWatch.Proofs.Json.Contents
import PoolWatch.Proofs.Report.Spelling
/-!
# Only reports are read

Every record of a text that is read has its fields once each, apart from notes and users that are
left out, and its numbers are in range.  Any other text is refused.
-/

namespace PoolWatch

open PoolWatch.Json PoolWatch.Numeric

namespace Report

def Gpu.amounts (g : Gpu) : List Float :=
  [g.memoryTotal, g.memoryUtil, g.gpuUtil, g.memoryUsed, g.fanSpeed, g.gpuTemp, g.memoryTemp,
    g.graphicsVoltage, g.powerDraw, g.graphicsClock, g.maxGraphicsClock, g.memoryClock,
    g.maxMemoryClock]

/-! ## Numbers -/

section

variable (amount : Float → Prop)

def Workstation.Fits (w : Workstation) : Prop :=
  w.lastSeen ≤ unsignedMax ∧ ∀ gpu ∈ w.gpus, ∀ x ∈ gpu.amounts, amount x

/-- The times fit 64 bits, and all readings are as they should be. -/
def Fits (groups : List Group) : Prop :=
  ∀ group ∈ groups, ∀ w ∈ group.workstations, w.Fits amount

end

theorem SpellsGpu.isFinite {gpu : Gpu} {s : List UInt8} (h : SpellsGpu gpu s) :
    ∀ x ∈ gpu.amounts, x.isFinite = true := by
  obtain ⟨row, rfl, hrow⟩ := h
  have hfits : Row.Fits (·.isFinite = true) (fun _ => True) gpuShape.fields row :=
    Shape.fits_of_spells (fun _ _ _ => trivial) hrow
  obtain ⟨-, -, -, -, h₁, h₂, h₃, h₄, h₅, h₆, h₇, h₈, h₉, h₁₀, h₁₁, h₁₂, h₁₃, -⟩ := hfits
  simp only [Gpu.amounts, List.forall_mem_cons]
  exact ⟨h₁, h₂, h₃, h₄, h₅, h₆, h₇, h₈, h₉, h₁₀, h₁₁, h₁₂, h₁₃, nofun⟩

theorem SpellsWorkstation.fits {w : Workstation} {s : List UInt8} (h : SpellsWorkstation w s) :
    w.Fits (·.isFinite = true) := by
  obtain ⟨row, rfl, hrow⟩ := h
  have hfits : Row.Fits (·.isFinite = true) (fun gpu => ∀ x ∈ gpu.amounts, x.isFinite = true)
      workstationShape.fields row :=
    Shape.fits_of_spells (fun _ _ hgpu => SpellsGpu.isFinite hgpu) hrow
  obtain ⟨-, -, -, -, -, hseen, hgpus, -⟩ := hfits
  exact ⟨hseen, hgpus⟩

theorem Spells.fits {groups : List Group} {text : List UInt8} (h : Spells groups text) :
    Fits (·.isFinite = true) groups := by
  obtain ⟨-, -, -, -, -, ⟨items, hitems, -⟩, -⟩ := h
  refine hitems.forall_mem ?_
  rintro group s ⟨row, rfl, hrow⟩
  have hfits : Row.Fits (·.isFinite = true) (fun w => w.Fits (·.isFinite = true))
      groupShape.fields row :=
    Shape.fits_of_spells (fun _ _ hw => SpellsWorkstation.fits hw) hrow
  exact hfits.2.1

/-! ## Fields -/

def shapes : List Shape := [groupShape, workstationShape, gpuShape]

theorem eq_of_not_required : ∀ shape ∈ shapes, ∀ f ∈ shape.fields, f.required = false →
    f = ⟨"notes", .text, false⟩ ∨ f = ⟨"user", .optionalText, false⟩ := by
  decide

/-- Only notes and a user may be left out.  Then the notes are empty, and there is no user. -/
theorem absent?_eq_some_iff {ε : Type} {shape : Shape} (hshape : shape ∈ shapes) {f : Field}
    (hf : f ∈ shape.fields) {v : f.kind.Value ε} :
    f.absent? ε = some v ↔
      (⟨f, v⟩ : (f : Field) × f.kind.Value ε) = ⟨⟨"notes", .text, false⟩, ("" : String)⟩ ∨
      (⟨f, v⟩ : (f : Field) × f.kind.Value ε) =
        ⟨⟨"user", .optionalText, false⟩, (none : Option String)⟩ := by
  constructor
  · intro h
    obtain rfl | rfl := eq_of_not_required shape hshape f hf (Field.required_of_absent h)
    · cases h
      exact .inl rfl
    · cases h
      exact .inr rfl
  · rintro (h | h) <;> cases h <;> rfl

theorem eq_user_of_drop : ∀ shape ∈ shapes, ∀ n ≤ shape.fields.length,
    (∀ f ∈ shape.fields.drop n, f.required = false) →
      ∀ f ∈ shape.fields.drop n, f.name = "user" := by
  decide

/-- The record is an object in which one member spells each field, apart from notes and a user that
are left out, or a list of texts that spell the fields in order, at whose end a user may be left
out.  All that it holds is JSON. -/
inductive Complete {ε : Type} (element : Spelling ε) (shape : Shape) : List UInt8 → Prop where
  | object {members : List Member} {s : List UInt8} :
      Items .curly SpellsMember true members s →
      (∀ f ∈ shape.fields, (∃ v, f.Given element v members) ∨
        f.Missing members ∧ f.name ∈ ["notes", "user"]) →
      (∀ m ∈ members, Written .value m.value) → Complete element shape (0x7b :: s)
  | list {items : List (List UInt8)} {s : List UInt8} :
      Items .square Eq true items s → items.length ≤ shape.fields.length →
      (∀ p ∈ shape.fields.zip items, ∃ v, p.1.kind.Spells element v p.2) →
      (∀ f ∈ shape.fields.drop items.length, f.name = "user") →
      (∀ item ∈ items, Written .value item) → Complete element shape (0x5b :: s)

section

variable {ε : Type} {element : Spelling ε}

theorem complete_of_spells (helement : ∀ v s, element v s → Written .value s) {shape : Shape}
    (hshape : shape ∈ shapes) {row : Row ε shape.fields} {s : List UInt8}
    (h : shape.Spells element row s) : Complete element shape s := by
  cases h with
  | object hitems hcarries hother =>
    refine .object hitems (fun f hf => ?_) fun m hm => ?_
    · refine (hcarries.given_or_absent hf).imp_right fun ⟨hmissing, v, habsent⟩ => ⟨hmissing, ?_⟩
      obtain h | h := (absent?_eq_some_iff hshape hf).1 habsent <;> cases h <;> simp
    · by_cases hname : m.name ∈ shape.fields.map (·.name)
      · exact hcarries.written helement hm hname
      · exact hother m hm hname
  | list hitems hlists =>
    obtain ⟨hlength, hzip, hdrop⟩ := hlists.given_or_absent
    refine .list hitems hlength hzip (eq_user_of_drop shape hshape _ hlength fun f hf => ?_)
      (hlists.written helement)
    obtain ⟨v, habsent⟩ := hdrop f hf
    exact Field.required_of_absent habsent

theorem Complete.written {shape : Shape} {s : List UInt8} (h : Complete element shape s) :
    Written .value s := by
  cases h with
  | object hitems _ hwritten => exact .brackets .curly (hitems.written_of_curly hwritten)
  | list hitems _ _ _ hwritten =>
    exact .brackets .square
      (hitems.written_of_square fun item hitem s hs => hs ▸ hwritten item hitem)

end

theorem SpellsGpu.complete {gpu : Gpu} {s : List UInt8} (h : SpellsGpu gpu s) :
    Complete (fun _ _ => False : Spelling Empty) gpuShape s := by
  obtain ⟨row, -, hrow⟩ := h
  exact complete_of_spells nofun (by simp [shapes]) hrow

theorem SpellsWorkstation.complete {w : Workstation} {s : List UInt8}
    (h : SpellsWorkstation w s) : Complete SpellsGpu workstationShape s := by
  obtain ⟨row, -, hrow⟩ := h
  exact complete_of_spells (fun _ _ hgpu => hgpu.complete.written) (by simp [shapes]) hrow

theorem SpellsGroup.complete {group : Group} {s : List UInt8} (h : SpellsGroup group s) :
    Complete SpellsWorkstation groupShape s := by
  obtain ⟨row, -, hrow⟩ := h
  exact complete_of_spells (fun _ _ hw => hw.complete.written) (by simp [shapes]) hrow

/-- The text is JSON with nothing but white space around it. -/
def IsJson (text : List UInt8) : Prop :=
  ∃ w s w', Blank w ∧ Blank w' ∧ Written .value s ∧ text = w ++ (s ++ w')

theorem Spells.isJson {groups : List Group} {text : List UInt8} (h : Spells groups text) :
    IsJson text := by
  obtain ⟨w, s, w', hw, hw', ⟨items, hitems, rfl⟩, rfl⟩ := h
  refine ⟨w, _, w', hw, hw', .brackets .square (hitems.written_of_square ?_), rfl⟩
  exact fun _ _ _ hgroup => hgroup.complete.written

/-! ## Texts -/

/-- A text that is read is JSON and spells what is read of it: a list of groups with white space
around it, in which every record is complete, every time fits 64 bits and every reading is finite.
A text that spells no groups is refused. -/
theorem parse_strict (text : List UInt8) :
    (∀ groups, parse text = .ok groups →
      Spells groups text ∧ Fits (·.isFinite = true) groups ∧ IsJson text) ∧
    (∀ group s, SpellsGroup group s → Complete SpellsWorkstation groupShape s) ∧
    (∀ w s, SpellsWorkstation w s → Complete SpellsGpu workstationShape s) ∧
    (∀ gpu s, SpellsGpu gpu s → Complete (fun _ _ => False : Spelling Empty) gpuShape s) ∧
    ((∀ groups, ¬Spells groups text) → Refused text) := by
  refine ⟨fun groups hparse => ?_, fun _ _ => SpellsGroup.complete,
    fun _ _ => SpellsWorkstation.complete, fun _ _ => SpellsGpu.complete,
    refused_of_not_spells⟩
  have hspells := parse_eq_ok_iff.1 hparse
  exact ⟨hspells, hspells.fits, hspells.isJson⟩

theorem parse_strict_list_and_twice :
    (Spells [⟨"a", [⟨"w", "c", "m", "n", "o", 7, []⟩]⟩]
      (octets "[[\"a\",[[\"w\",\"c\",\"m\",\"n\",\"o\",7,[]]]]]")) ∧
    Refused (octets "[\x7b\"name\":\"a\",\"name\":\"a\",\"workstations\":[]\x7d]") := by
  constructor
  · exact ((parse_strict _).1 _ (by decide +kernel)).1
  · refine (parse_strict _).2.2.2.2 fun groups hspells => ?_
    have hparse := parse_eq_ok_iff.2 hspells
    have herror : parse (octets
        "[\x7b\"name\":\"a\",\"name\":\"a\",\"workstations\":[]\x7d]") =
          .error (.duplicateField "name") := by
      decide +kernel
    rw [herror] at hparse
    cases hparse

end Report

end PoolWatch
