import BlockCompiler.Proofs.Emission.Initializer
import BlockCompiler.Proofs.Emission.Laid
import BlockCompiler.Proofs.Emit.Peripheral

set_option autoImplicit false

/-! # Whether a peripheral that is used is set up

A block that needs a peripheral looks for an initializer anywhere in the workspace, while the
peripheral is set up only if the first initializer in program order is started. So a library call may
stand in a program that does not set up what it needs; this module says just when it does. -/

namespace BlockCompiler

namespace Project

open Workspace

variable {p : Project}

theorem ne_library_of_mem_keys {peripheral : Peripheral} {part : Section} {key : String}
    (hkey : (part, key) ∈ peripheral.keys) : (part, key) ≠ (.includes, "simpletools") := by
  rintro heq
  rw [heq] at hkey
  cases peripheral <;> revert hkey <;> decide

/-! ## The initializer -/

/-- The first initializer in program order is started. -/
def StartsFirst (p : Project) (kind : Kind) : Prop :=
  ∃ first ∈ p.final.started, (p.inOrder kind).head? = some first

theorem isOf_of_mem_inOrder {kind : Kind} {id : BlockId} (h : id ∈ p.inOrder kind) :
    p.isOf kind id = true := by
  obtain ⟨-, henabled⟩ := List.mem_filter.1 h
  unfold isEnabled at henabled
  unfold isOf
  cases hb : p.workspace.block? id with
  | none => rw [hb] at henabled; cases henabled
  | some b =>
    rw [hb] at henabled
    exact (Bool.and_eq_true_iff.1 henabled).2

/-- The first initializer in program order sets its peripheral up if it is started. -/
theorem has_of_startsFirst (peripheral : Peripheral) {part : Section} {key : String}
    (hkey : (part, key) ∈ peripheral.keys) (h : p.StartsFirst peripheral.initializer) :
    p.final.context.has part key = true := by
  obtain ⟨label, hlabel⟩ := peripheral.exists_label
  obtain ⟨first, hstarted, hhead⟩ := h
  obtain ⟨fragment, hcode⟩ := exists_codeOf?_of_started hstarted
  have hof := isOf_of_mem_inOrder (List.mem_of_head? hhead)
  have hlate := not_isLate_of_head? hhead
  refine has_of_codeOf? hcode ?_
  intro b es hb htook
  obtain ⟨text, rfl, hpath⟩ := Emit.path_of_not_late ((isOf_iff hb).1 hof) hlabel hlate htook.path
  exact Emit.setUp_registers p b hkey es text hpath

section Forest

variable (h : p.workspace.IsForest p.workspace.top)

include h

/-- If a key of a peripheral is registered, the first initializer is started; or there is none, and
blocks mount the card for themselves. -/
theorem startsFirst_of_has (peripheral : Peripheral) {part : Section} {key : String}
    (hkey : (part, key) ∈ peripheral.keys) (hhas : p.final.context.has part key = true) :
    p.StartsFirst peripheral.initializer ∨ (peripheral = .card ∧ p.has .cardInit = false) := by
  obtain ⟨label, hlabel⟩ := peripheral.exists_label
  obtain ⟨id, b, es, fragment, hstarted, hb, htook, action, haction, hregisters⟩ :=
    exists_took_of_has (ne_library_of_mem_keys hkey) hhas
  have hallows := htook.allowed action haction
  unfold Allows at hallows
  split at hallows
  · next kind hkind =>
    rcases hallows.eq_initializer hkey hregisters with rfl | hcard
    · refine .inl ⟨id, hstarted, head?_of_not_late h ?_ ?_⟩
      · exact mem_ran.2 ⟨hstarted, (isOf_iff hb).2 hkind⟩
      · -- a late one registers nothing
        rw [Bool.eq_false_iff]
        intro hlate
        rw [(Emit.path_of_late hkind hlabel hlate htook.path).1] at haction
        obtain rfl := List.mem_singleton.1 haction
        exact hregisters
    · exact .inr hcard
  · obtain ⟨d, rfl, -⟩ := hallows
    exact hregisters.elim

end Forest

/-! ## Provided and prepared -/

/-- A program sets a peripheral up: the code of an initializer that starts the modulation stands in it,
or what the peripheral needs is registered. -/
def Provides (p : Project) : Peripheral → Prop
  | .modulation => p.HasLine "pwm_start(" ∧ ∃ id rest, p.isOf .pwmStart id = true ∧ p.Laid id ∧
      p.codeOf? id = some (.statement ("pwm_start(" ++ rest))
  | .mixer => p.final.context.has .globals "sound_handle" = true ∧
      p.final.context.has .setups "sound_init" = true
  | .card => p.final.context.has .setups "sd_card" = true
  | .drive => p.final.context.has .includes "robot_drive" = true

/-- The blocks of a program are such that it sets a peripheral up once it is needed: the first
initializer in program order is started, and one that stands for a call has its code held; the card
may also do without any initializer. -/
def Prepares (p : Project) : Peripheral → Prop
  | .modulation => ∃ first, (p.inOrder .pwmStart).head? = some first ∧ p.Laid first
  | .mixer => p.StartsFirst .soundInit
  | .card => p.has .cardInit = false ∨ p.StartsFirst .cardInit
  | .drive => p.StartsFirst .driveInit

section Forest

variable (h : p.workspace.IsForest p.workspace.top)

include h

theorem providesModulation_iff : p.Provides .modulation ↔ p.Prepares .modulation := by
  constructor
  · rintro ⟨-, id, rest, hof, hlaid, hcode⟩
    have hran : id ∈ p.ran .pwmStart := mem_ran.2 ⟨started_of_codeOf? hcode, hof⟩
    refine ⟨id, head?_of_not_late h hran (Bool.eq_false_iff.2 fun hlate => ?_), hlaid⟩
    -- the code of a late one is a comment and no call
    obtain ⟨b, -, hwarning⟩ := codeOf?_of_late rfl hof hlate hcode
    have hcall : Emit.IsSetUp .pwmStart ("pwm_start(" ++ rest) := .inl ⟨rfl, rest, rfl⟩
    exact hcall.ne_comment _ (Fragment.statement.inj hwarning)
  · rintro ⟨first, hhead, hlaid⟩
    have hvisible : Text.allBlank "pwm_start(".toList = false := by decide
    obtain ⟨fragment, hcode, hshow⟩ := hasLine_of_laid h hvisible (by decide) hlaid
    have hof := isOf_of_mem_inOrder (List.mem_of_head? hhead)
    have hlate := not_isLate_of_head? hhead
    obtain ⟨text, rfl, ⟨-, rest, rfl⟩ | ⟨hne, -⟩⟩ := codeOf?_of_not_late rfl hof hlate hcode
    · exact ⟨hshow _ rfl (.of_start rest), first, rest, hof, hlaid, hcode⟩
    · exact absurd rfl hne

theorem providesMixer_iff : p.Provides .mixer ↔ p.Prepares .mixer := by
  constructor
  · rintro ⟨hhandle, -⟩
    exact (startsFirst_of_has h .mixer List.mem_cons_self hhandle).resolve_right nofun
  · intro hstarts
    refine ⟨has_of_startsFirst .mixer List.mem_cons_self hstarts, ?_⟩
    exact has_of_startsFirst .mixer (List.mem_cons_of_mem _ List.mem_cons_self) hstarts

theorem providesDrive_iff : p.Provides .drive ↔ p.Prepares .drive := by
  constructor
  · intro hdrive
    exact (startsFirst_of_has h .drive List.mem_cons_self hdrive).resolve_right nofun
  · exact has_of_startsFirst .drive List.mem_cons_self

/-- The card is mounted, given a block that gets by without an initializer if there is none. -/
theorem providesCard_iff (hmounts : p.has .cardInit = false → p.Provides .card) :
    p.Provides .card ↔ p.Prepares .card := by
  constructor
  · intro hcard
    rcases startsFirst_of_has h .card List.mem_cons_self hcard with hstarts | ⟨-, hnone⟩
    · exact .inr hstarts
    · exact .inl hnone
  · rintro (hnone | hstarts)
    · exact hmounts hnone
    · exact has_of_startsFirst .card List.mem_cons_self hstarts

/-- A program in which a block calls the library of a peripheral sets the peripheral up just if its
blocks are prepared for it. -/
theorem provides_iff {id : BlockId} {b : Block} {kind : Kind} {peripheral : Peripheral}
    {text : String} (hb : p.workspace.block? id = some b) (hkind : Kind.ofName? b.type = some kind)
    (hneeds : kind.peripheral? = some peripheral)
    (hcode : p.codeOf? id = some (.statement text)) (hcall : Emit.IsCall kind text) :
    p.Provides peripheral ↔ p.Prepares peripheral := by
  cases peripheral with
  | modulation => exact providesModulation_iff h
  | mixer => exact providesMixer_iff h
  | card =>
    refine providesCard_iff h fun hnone => has_of_codeOf? hcode fun b' es hb' htook => ?_
    obtain rfl := Option.some_inj.1 (hb.symm.trans hb')
    refine (Emit.recipe_mounts hnone hkind hneeds htook.path).resolve_right ?_
    rintro ⟨d, hcomment⟩
    exact hcall.ne_comment d hcomment
  | drive => exact providesDrive_iff h

end Forest

end Project

/-! ## Documents -/

/-- A program of a document in which a block calls the library of a peripheral sets the peripheral up
just if its blocks are prepared for it. -/
theorem Document.provides_iff_prepares {parse : Markup.Parser} {source : String}
    {d : Document} (h : load parse source = .ok d) (board? : Option Board) {id : BlockId} {b : Block} {kind : Kind}
    {peripheral : Peripheral} {text : String}
    (hb : (d.project board?).workspace.block? id = some b)
    (hkind : Kind.ofName? b.type = some kind) (hneeds : kind.peripheral? = some peripheral)
    (hcode : (d.project board?).codeOf? id = some (.statement text))
    (hcall : Emit.IsCall kind text) :
    (d.project board?).Provides peripheral ↔ (d.project board?).Prepares peripheral :=
  Project.provides_iff (load_isForest h) hb hkind hneeds hcode hcall

/-- A document that opens a file on the card, while the block that mounts it stands in a disabled
loop. -/
def Document.unmounted : Document where
  workspace :=
    { blocks := #[
        { id := "controls_repeat#0", type := "controls_repeat", disabled := true
          statements := ⟨[("DO", 1)]⟩ },
        { id := "sd_init#1", type := "sd_init" },
        { id := "sd_open#2", type := "sd_open", fields := ⟨[("FILENAME", "data")]⟩ }]
      top := [0, 2]
      index := [0, 1, 2] }
  board? := none

/-- The text of the document above. -/
def Document.unmountedText : String :=
  "<xml><block type='controls_repeat' disabled='true'>" ++
    "<statement name='DO'><block type='sd_init'/></statement></block>" ++
    "<block type='sd_open'><field name='FILENAME'>data</field></block></xml>"

theorem Document.ofText_unmountedText : ofText unmountedText = .ok unmounted :=
  ofText_of_chars (append_eq_ofList (append_eq_ofList rfl rfl) rfl) (by decide +kernel)

/-- The file is opened although the card is not mounted. -/
theorem Document.not_provides_unmounted :
    ofText unmountedText = .ok unmounted ∧
      (unmounted.project (some .flip)).codeOf? 2 =
        some (.statement "fp = fopen(\"data.txt\", \"r\");\n") ∧
      Emit.IsCall .fileOpen "fp = fopen(\"data.txt\", \"r\");\n" ∧
      ¬(unmounted.project (some .flip)).Provides .card := by
  have hcode : (unmounted.project (some .flip)).codeOf? 2 =
      some (.statement "fp = fopen(\"data.txt\", \"r\");\n") := by decide +kernel
  have hcall : Emit.IsCall .fileOpen "fp = fopen(\"data.txt\", \"r\");\n" :=
    ⟨"fp = fopen(", List.mem_cons_self, "\"data.txt\", \"r\");\n", rfl⟩
  refine ⟨ofText_unmountedText, hcode, hcall, ?_⟩
  rw [provides_iff_prepares ofText_unmountedText (some .flip) rfl (by decide) rfl hcode hcall]
  rintro (hnone | ⟨first, hstarted, hhead⟩)
  · revert hnone
    decide +kernel
  · have hfirst : ((unmounted.project (some .flip)).inOrder .cardInit).head? = some 1 := by
      decide +kernel
    obtain rfl : first = 1 := Option.some_inj.1 (hhead.symm.trans hfirst)
    revert hstarted
    decide +kernel

end BlockCompiler
