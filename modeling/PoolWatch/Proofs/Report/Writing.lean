import PoolWatch.Proofs.Json.Writing
import PoolWatch.Proofs.Report.Strictness
/-!
# Reports are written and read back

However a report is spelled, it is read as the same groups.  In particular what is written of
groups is read back, if the numerals that are chosen for their readings stand for them.
-/

namespace PoolWatch.Report

open PoolWatch.Json PoolWatch.Numeric

/-! ## Writing -/

def gpuRow (g : Gpu) : Row Empty gpuShape.fields :=
  (g.uuid, g.gpuName, g.gpuBrand, g.driverVer, g.memoryTotal, g.memoryUtil, g.gpuUtil,
    g.memoryUsed, g.fanSpeed, g.gpuTemp, g.memoryTemp, g.graphicsVoltage, g.powerDraw,
    g.graphicsClock, g.maxGraphicsClock, g.memoryClock, g.maxMemoryClock, g.inUse, g.user, ())

def workstationRow (w : Workstation) : Row Gpu workstationShape.fields :=
  (w.name, w.cpu, w.motherboard, w.notes, w.owner, w.lastSeen, w.gpus, ())

def groupRow (g : Group) : Row Workstation groupShape.fields := (g.name, g.workstations, ())

section

variable (numeral : Float → Numeral)

def writeGpu (g : Gpu) : List UInt8 := gpuShape.write numeral Empty.elim (gpuRow g)

def writeWorkstation (w : Workstation) : List UInt8 :=
  workstationShape.write numeral (writeGpu numeral) (workstationRow w)

def writeGroup (g : Group) : List UInt8 :=
  groupShape.write numeral (writeWorkstation numeral) (groupRow g)

/-- Writes groups as a report, with the given numerals for the readings. -/
def write (groups : List Group) : List UInt8 :=
  0x5b :: writeItems .square true (groups.map (writeGroup numeral))

end

section

variable {numeral : Float → Numeral}

theorem spells_writeGpu {g : Gpu} (h : ∀ x ∈ g.amounts, (numeral x).StandsFor x) :
    SpellsGpu g (writeGpu numeral g) := by
  refine ⟨gpuRow g, rfl, Shape.spells_write (fun _ => True) nofun (by decide) ?_⟩
  simp only [Gpu.amounts, List.forall_mem_cons] at h
  obtain ⟨h₁, h₂, h₃, h₄, h₅, h₆, h₇, h₈, h₉, h₁₀, h₁₁, h₁₂, h₁₃, -⟩ := h
  exact ⟨trivial, trivial, trivial, trivial, h₁, h₂, h₃, h₄, h₅, h₆, h₇, h₈, h₉, h₁₀, h₁₁, h₁₂,
    h₁₃, trivial, trivial, trivial⟩

theorem spells_writeWorkstation {w : Workstation} (h : w.Fits fun x => (numeral x).StandsFor x) :
    SpellsWorkstation w (writeWorkstation numeral w) := by
  refine ⟨workstationRow w, rfl, Shape.spells_write
    (fun gpu => ∀ x ∈ gpu.amounts, (numeral x).StandsFor x)
    (fun _ => spells_writeGpu) (by decide) ?_⟩
  exact ⟨trivial, trivial, trivial, trivial, trivial, h.1, h.2, trivial⟩

theorem spells_write {groups : List Group} (h : Fits (fun x => (numeral x).StandsFor x) groups) :
    Spells groups (write numeral groups) := by
  have hgroup (g : Group) (hg : g ∈ groups) : SpellsGroup g (writeGroup numeral g) := by
    refine ⟨groupRow g, rfl, Shape.spells_write
      (fun w => w.Fits fun x => (numeral x).StandsFor x)
      (fun _ => spells_writeWorkstation) (by decide) ?_⟩
    exact ⟨trivial, h g hg, trivial⟩
  exact ⟨[], write numeral groups, [], blank_nil, blank_nil,
    ⟨_, items_writeItems hgroup true, rfl⟩, by rw [List.append_nil, List.nil_append]⟩

end

/-! ## Reading back -/

/-- Every text that spells groups is read as these groups.  So what is written of them is read
back, and all spellings are read alike. -/
theorem parse_spelled (groups : List Group) :
    (∀ text, Spells groups text → parse text = .ok groups) ∧
    (∀ numeral, Fits (fun x => (numeral x).StandsFor x) groups →
      parse (write numeral groups) = .ok groups) ∧
    ∀ text text', Spells groups text → Spells groups text' → parse text = parse text' := by
  refine ⟨fun text => parse_eq_ok_iff.2, fun numeral h => parse_eq_ok_iff.2 (spells_write h),
    fun text text' h h' => ?_⟩
  rw [parse_eq_ok_iff.2 h, parse_eq_ok_iff.2 h']

/-! ## A report in mixed forms -/

def idleGpu : Gpu :=
  ⟨"u", "n", "b", "d", 1.5, 0, 0, 0, 0, 0, 0, 0, 0, 0, 0, 0, 0, false, none⟩

def loneWorkstation : Workstation := ⟨"w", "c", "m", "", "o", 7, [idleGpu]⟩

/-- The GPU as a list that ends before its user. -/
def idleGpuItems : List (List UInt8) :=
  [writeText "u", writeText "n", writeText "b", writeText "d", octets "1.5", octets "0",
    octets "0", octets "0", octets "0", octets "0", octets "0", octets "0", octets "0", octets "0",
    octets "0", octets "0", octets "0", octets "false"]

def idleGpuText : List UInt8 := 0x5b :: writeItems .square true idleGpuItems

/-- The workstation as an object without notes, whose fields are not in order. -/
def loneWorkstationMembers : List Member :=
  [⟨"last_seen", octets "7"⟩,
    ⟨"gpus", 0x5b :: (idleGpuText ++ [0x5d])⟩, ⟨"owner", writeText "o"⟩,
    ⟨"motherboard", writeText "m"⟩, ⟨"cpu", writeText "c"⟩, ⟨"name", writeText "w"⟩]

def loneWorkstationText : List UInt8 :=
  0x7b :: writeItems .curly true (loneWorkstationMembers.map Member.write)

theorem spells_idleGpu : SpellsGpu idleGpu idleGpuText := by
  have hitems : Items .square Eq true idleGpuItems
      (writeItems .square true (idleGpuItems.map id)) := items_writeItems (fun _ _ => rfl) true
  rw [List.map_id] at hitems
  have hmemory : SpellsAmount 1.5 (octets "1.5") :=
    ⟨⟨false, countRun 1, some (countRun 5).toDigitRun, none⟩, by decide +kernel,
      by decide +kernel⟩
  have hzero : SpellsAmount 0 (octets "0") :=
    ⟨⟨false, countRun 0, none, none⟩, by decide +kernel, by decide +kernel⟩
  refine ⟨gpuRow idleGpu, rfl, .list hitems ?_⟩
  exact ⟨spells_writeText "u", spells_writeText "n", spells_writeText "b", spells_writeText "d",
    hmemory, hzero, hzero, hzero, hzero, hzero, hzero, hzero, hzero, hzero, hzero, hzero, hzero,
    rfl, rfl, rfl⟩

theorem spells_loneWorkstation : SpellsWorkstation loneWorkstation loneWorkstationText := by
  have hlead : Lead true [] := blank_nil
  have hgpus : SpellsList SpellsGpu [idleGpu] (0x5b :: (idleGpuText ++ [0x5d])) :=
    ⟨_, .item hlead spells_idleGpu (.close blank_nil), rfl⟩
  have hseen : SpellsCount 7 (octets "7") :=
    ⟨countRun 7, by decide +kernel, by decide +kernel, by decide⟩
  have hnotes : Field.Missing ⟨"notes", .text, false⟩ loneWorkstationMembers := by
    simp [Field.Missing, loneWorkstationMembers]
  refine ⟨workstationRow loneWorkstation, rfl,
    .object (items_writeItems (fun m _ => m.spells_write) true) ?_ ?_⟩
  · exact ⟨.inl ⟨_, rfl, spells_writeText "w"⟩, .inl ⟨_, rfl, spells_writeText "c"⟩,
      .inl ⟨_, rfl, spells_writeText "m"⟩, .inr ⟨hnotes, rfl⟩, .inl ⟨_, rfl, spells_writeText "o"⟩,
      .inl ⟨_, rfl, hseen⟩, .inl ⟨_, rfl, hgpus⟩, trivial⟩
  · simp [loneWorkstationMembers, workstationShape]

theorem parse_spelled_in_mixed_forms :
    parse (octets " [\x7b\"x\": [null],\"n\\u0061me\":\"a\",\"workstations\":[\x7b" ++
        (octets "\"last_seen\":7,\"gpus\":[[\"u\",\"n\",\"b\",\"d\"," ++
          (octets "1.5,0,0,0,0,0,0,0,0,0,0,0,0,false]],\"owner\":\"o\"," ++
            octets "\"motherboard\":\"m\",\"cpu\":\"c\",\"name\":\"w\"\x7d]\x7d]"))) =
      .ok [⟨"a", [loneWorkstation]⟩] := by
  have hlead : Lead true [] := blank_nil
  have hcomma : Lead false [0x2c] := ⟨[], [], blank_nil, blank_nil, rfl⟩
  have hspace : Blank [0x20] := by simp [Blank, isSpace]
  have hword : Written .value (octets "null") := .word (by simp)
  have hnull : Written .value [0x5b, 0x6e, 0x75, 0x6c, 0x6c, 0x5d] :=
    .brackets .square (.item hlead .none blank_nil hword (.close blank_nil))
  have hhex : SpellsHex (((0 * 16 + 0) * 16 + 6) * 16 + 1) [0x30, 0x30, 0x36, 0x31] :=
    .digits rfl rfl rfl rfl
  have hletter : SpellsChar 'a' _ := .code hhex
  have hname : SpellsString "name" _ := ⟨_, .cons (spells_writeChar 'n') (.cons hletter
    (.cons (spells_writeChar 'm') (.cons (spells_writeChar 'e') .nil))), rfl⟩
  have hlist : SpellsList SpellsWorkstation [loneWorkstation]
      (0x5b :: (loneWorkstationText ++ [0x5d])) :=
    ⟨_, .item hlead spells_loneWorkstation (.close blank_nil), rfl⟩
  let members : List Member := [⟨"x", [0x5b, 0x6e, 0x75, 0x6c, 0x6c, 0x5d]⟩,
    ⟨"name", writeText "a"⟩, ⟨"workstations", 0x5b :: (loneWorkstationText ++ [0x5d])⟩]
  have hmembers : Items .curly SpellsMember true members _ :=
    .item hlead ⟨_, [], [0x20], spells_writeText "x", blank_nil, hspace, rfl⟩
      (.item hcomma ⟨_, [], [], hname, blank_nil, blank_nil, rfl⟩
        (.item hcomma ⟨_, [], [], spells_writeText "workstations", blank_nil, blank_nil, rfl⟩
          (.close blank_nil)))
  have hcarries :
      Carries SpellsWorkstation groupShape.fields ("a", [loneWorkstation], ()) members :=
    ⟨.inl ⟨_, rfl, spells_writeText "a"⟩, .inl ⟨_, rfl, hlist⟩, trivial⟩
  have hother : ∀ m ∈ members, m.name ∉ groupShape.fields.map (·.name) → Written .value m.value :=
    List.forall_mem_cons.2 ⟨fun _ => hnull, List.forall_mem_cons.2 ⟨fun h => absurd (by decide) h,
      List.forall_mem_cons.2 ⟨fun h => absurd (by decide) h,
        fun _ h => absurd h List.not_mem_nil⟩⟩⟩
  have hgroup : SpellsGroup ⟨"a", [loneWorkstation]⟩ _ := ⟨_, rfl, .object hmembers hcarries hother⟩
  have hgroups : SpellsList SpellsGroup [⟨"a", [loneWorkstation]⟩] _ :=
    ⟨_, .item hlead hgroup (.close blank_nil), rfl⟩
  exact (parse_spelled _).1 _ ⟨[0x20], _, [], hspace, blank_nil, hgroups, by decide +kernel⟩

end PoolWatch.Report
