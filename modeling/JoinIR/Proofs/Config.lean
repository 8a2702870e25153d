/-
# JoinIR.Proofs.Config — the settings are read section by section

The program declares little of a settings file: the field `mode` of the section `backend` and the
field `print_ir` of the section `debug`. `declared` deletes everything else from a document, and
`only` keeps one of its sections. The settings of a document are those of its declared part, and
they are put together from what each section gives by itself, so nothing that is not declared can
make a file bad or change a setting, and neither section can stand in for the other.

This holds for every library that does what is documented of it (`Library.Conforms`), so the
results are about every valid document, however deep its values nest. Two facts about the loop
that reads a record from a table carry them: an entry that no field can see is no step of the loop
(`Declaration.foldlM_enter?_filterMap`), and the steps of the one section and those of the other go
on side by side (`Config.Joined.run`).
-/
import JoinIR.Config

namespace JoinIR

open Toml (Branches Declaration Field Filling Library Tree)

namespace Toml

/-! ## Parts of a document -/

namespace Branches

/-- The branches with one name. -/
def only (name : String) (bs : Branches) : Branches := bs.filter fun e => e.1 == name

/-- Two tables have the same under every name. The order of names is no part of what they say. -/
def Agree (bs cs : Branches) : Prop := ∀ name, bs.only name = cs.only name

variable {name other : String} {v : Tree} {bs : Branches}

theorem only_cons_self : only name ((name, v) :: bs) = (name, v) :: only name bs := by
  simp [only]

theorem only_cons_of_ne (h : other ≠ name) : only name ((other, v) :: bs) = only name bs := by
  simp [only, h]

end Branches

/-- A section with nothing but one field. What is not a table stays as it is. -/
def Tree.only (field : String) : Tree → Tree
  | .table bs => .table (Branches.only field bs)
  | v => v

/-! ## Reading a record -/

namespace Declaration

variable {S : Type} {d : Declaration S} {field : String}

theorem enter?_of_undeclared {p : Filling S} {e : String × Tree}
    (h : ∀ f ∈ d.fields, f.name ≠ e.1) : d.enter? p e = some p := by
  have hnone : d.fields.find? (·.name == e.1) = none := by simpa using h
  rw [enter?, hnone]

/-- While a record is read, entries can be changed and left out where no field can see it. -/
theorem foldlM_enter?_filterMap {keep : String × Tree → Option (String × Tree)}
    (h : ∀ p e, (keep e).elim (some p) (d.enter? p) = d.enter? p e) (bs : Branches)
    (p : Filling S) : (bs.filterMap keep).foldlM d.enter? p = bs.foldlM d.enter? p := by
  induction bs generalizing p with
  | nil => rfl
  | cons e bs ih =>
    rw [List.foldlM_cons, ← h p e]
    cases hk : keep e with
    | none =>
      rw [List.filterMap_cons_none hk, ih]
      rfl
    | some e' =>
      rw [List.filterMap_cons_some hk, List.foldlM_cons, Option.elim_some]
      exact bind_congr fun q => ih q

theorem ofBranches?_filterMap {keep : String × Tree → Option (String × Tree)}
    (h : ∀ p e, (keep e).elim (some p) (d.enter? p) = d.enter? p e) (bs : Branches) :
    d.ofBranches? (bs.filterMap keep) = d.ofBranches? bs := by
  rw [ofBranches?, foldlM_enter?_filterMap h, ofBranches?]

/-- A record of one field does not see what is under other names. -/
theorem ofBranches?_only (h : ∀ f ∈ d.fields, f.name = field) (bs : Branches) :
    d.ofBranches? (bs.only field) = d.ofBranches? bs := by
  rw [Branches.only, ← List.filterMap_eq_filter]
  refine ofBranches?_filterMap (fun p e => ?_) bs
  by_cases he : e.1 = field
  · simp [Option.guard, he]
  · have hundeclared : ∀ f ∈ d.fields, f.name ≠ e.1 := fun f hf hn => he (hn ▸ h f hf)
    simp [Option.guard, he, enter?_of_undeclared hundeclared]

end Declaration

namespace Library.Conforms

variable {L : Library} {Says : String → Branches → Prop} (hL : L.Conforms Says)
include hL

variable {S : Type} {d : Declaration S} {field : String} {fs : Branches}

theorem record?_only (h : ∀ f ∈ d.fields, f.name = field) (v : Tree) :
    L.record? d (v.only field) = L.record? d v := by
  cases v with
  | table bs => rw [Tree.only, hL.record?_table, hL.record?_table, Declaration.ofBranches?_only h]
  | _ => rfl

/-- A record of one field that a table does not give is the standard one. -/
theorem record?_unset (h : ∀ f ∈ d.fields, f.name = field) (hfs : fs.only field = []) :
    L.record? d (.table fs) = some d.standard := by
  rw [← hL.record?_only h, Tree.only, hfs, hL.record?_table]
  rfl

/-- A record of one field that a table gives is the standard one with that field. -/
theorem record?_set {f : Field S} {s : S} {v : Tree} (hfs : fs.only f.name = [(f.name, v)]) :
    L.record? ⟨[f], s⟩ (.table fs) = (f.set? v).map (· s) := by
  have hfield : ∀ g ∈ (⟨[f], s⟩ : Declaration S).fields, g.name = f.name := by simp
  rw [← hL.record?_only hfield, Tree.only, hfs, hL.record?_table]
  cases h : f.set? v <;> simp [Declaration.ofBranches?, Declaration.enter?, h]

end Library.Conforms

end Toml

namespace Config

variable {L : Library} {Says : String → Branches → Prop}

/-! ## What is not declared -/

/-- The settings in a document. -/
def ofDocument? (L : Library) (bs : Branches) : Option Config :=
  L.record? (declaration L) (.table bs)

/-- The field that a section of the settings declares. -/
def fieldOf? (name : String) : Option String :=
  if name = "backend" then some "mode"
  else if name = "debug" then some "print_ir"
  else none

/-- The document without what is not declared: without the sections that are none of the settings,
and without all but the one field where a section of the settings is a table. -/
def declared (bs : Branches) : Branches :=
  bs.filterMap fun e => (fieldOf? e.1).map fun field => (e.1, e.2.only field)

theorem backend_fields : ∀ f ∈ (Backend.declaration L).fields, f.name = "mode" := by
  simp [Backend.declaration, Field.of]

theorem debug_fields : ∀ f ∈ (Debug.declaration L).fields, f.name = "print_ir" := by
  simp [Debug.declaration, Field.of]

theorem enter?_backend (p : Filling Config) (v : Tree) :
    (declaration L).enter? p ("backend", v)
      = if "backend" ∈ p.given then none
        else (L.record? (Backend.declaration L) v).map fun backend =>
          ⟨{ p.record with backend }, "backend" :: p.given⟩ := by
  simp [Declaration.enter?, declaration, Field.of, Function.comp_def]

theorem enter?_debug (p : Filling Config) (v : Tree) :
    (declaration L).enter? p ("debug", v)
      = if "debug" ∈ p.given then none
        else (L.record? (Debug.declaration L) v).map fun debug =>
          ⟨{ p.record with debug }, "debug" :: p.given⟩ := by
  simp [Declaration.enter?, declaration, Field.of, Function.comp_def]

theorem enter?_other {p : Filling Config} {name : String} {v : Tree} (hb : name ≠ "backend")
    (hd : name ≠ "debug") : (declaration L).enter? p (name, v) = some p := by
  apply Declaration.enter?_of_undeclared
  simp [declaration, Field.of, hb.symm, hd.symm]

/-- What is not declared has no say. -/
theorem ofDocument?_declared (hL : L.Conforms Says) (bs : Branches) :
    ofDocument? L (declared bs) = ofDocument? L bs := by
  rw [ofDocument?, ofDocument?, hL.record?_table, hL.record?_table]
  refine Declaration.ofBranches?_filterMap (fun p e => ?_) bs
  obtain ⟨name, v⟩ := e
  by_cases hb : name = "backend"
  · subst hb
    simp [fieldOf?, enter?_backend, hL.record?_only backend_fields]
  · by_cases hd : name = "debug"
    · subst hd
      simp [fieldOf?, enter?_debug, hL.record?_only debug_fields]
    · simp [fieldOf?, hb, hd, enter?_other hb hd]

/-! ## The sections side by side -/

/-- Settings while they are read are put together from two others, the one for `backend` and the
other for `debug`. -/
structure Joined (p b d : Filling Config) : Prop where
  backend : p.record.backend = b.record.backend
  debug : p.record.debug = d.record.debug
  backend_given : "backend" ∈ p.given ↔ "backend" ∈ b.given
  debug_given : "debug" ∈ p.given ↔ "debug" ∈ d.given

namespace Joined

variable {p b d : Filling Config}

theorem set_backend (h : Joined p b d) (backend : Backend) :
    Joined ⟨{ p.record with backend }, "backend" :: p.given⟩
      ⟨{ b.record with backend }, "backend" :: b.given⟩ d where
  backend := rfl
  debug := h.debug
  backend_given := by simp
  debug_given := by simpa using h.debug_given

theorem set_debug (h : Joined p b d) (debug : Debug) :
    Joined ⟨{ p.record with debug }, "debug" :: p.given⟩ b
      ⟨{ d.record with debug }, "debug" :: d.given⟩ where
  backend := h.backend
  debug := rfl
  backend_given := by simpa using h.backend_given
  debug_given := by simp

/-- Reading goes on as the two sections are read, each from its own entries. -/
theorem run (h : Joined p b d) (bs : Branches) :
    (bs.foldlM (declaration L).enter? p).map Filling.record = do
      let b' ← (bs.only "backend").foldlM (declaration L).enter? b
      let d' ← (bs.only "debug").foldlM (declaration L).enter? d
      return ⟨b'.record.backend, d'.record.debug⟩ := by
  -- An entry of a section is a step of the whole and of that section only, and what is joined
  -- stays joined; a second entry stops both.
  induction bs generalizing p b d with
  | nil =>
    obtain ⟨⟨pb, pd⟩, pg⟩ := p
    obtain ⟨rfl, rfl⟩ : pb = b.record.backend ∧ pd = d.record.debug := ⟨h.backend, h.debug⟩
    rfl
  | cons e bs ih =>
    obtain ⟨name, v⟩ := e
    by_cases hb : name = "backend"
    · subst hb
      rw [Branches.only_cons_self, Branches.only_cons_of_ne (by decide), List.foldlM_cons,
        List.foldlM_cons, enter?_backend, enter?_backend]
      by_cases hg : "backend" ∈ b.given
      · simp [hg, h.backend_given]
      · cases hv : L.record? (Backend.declaration L) v with
        | none => simp [hg, h.backend_given]
        | some backend => simpa [hg, h.backend_given] using ih (h.set_backend backend)
    · by_cases hd : name = "debug"
      · subst hd
        rw [Branches.only_cons_self, Branches.only_cons_of_ne (by decide), List.foldlM_cons,
          List.foldlM_cons, enter?_debug, enter?_debug]
        by_cases hg : "debug" ∈ d.given
        · simp [hg, h.debug_given]
        · cases hv : L.record? (Debug.declaration L) v with
          | none => simp [hg, h.debug_given]
          | some debug => simpa [hg, h.debug_given] using ih (h.set_debug debug)
      · rw [Branches.only_cons_of_ne hb, Branches.only_cons_of_ne hd, List.foldlM_cons,
          enter?_other hb hd]
        exact ih h

end Joined

/-- The settings of a document are put together from what its sections give by themselves. -/
theorem ofDocument?_sections (hL : L.Conforms Says) (bs : Branches) :
    ofDocument? L bs = do
      let b ← ofDocument? L (bs.only "backend")
      let d ← ofDocument? L (bs.only "debug")
      return ⟨b.backend, d.debug⟩ := by
  have start : Joined ⟨(declaration L).standard, []⟩ ⟨(declaration L).standard, []⟩
      ⟨(declaration L).standard, []⟩ := ⟨rfl, rfl, .rfl, .rfl⟩
  simp only [ofDocument?, hL.record?_table, Declaration.ofBranches?, start.run bs,
    Option.bind_eq_bind, Option.bind_map]
  rfl

theorem ofDocument?_eq_some_iff (hL : L.Conforms Says) {bs : Branches} {c : Config} :
    ofDocument? L bs = some c ↔
      ∃ b d, ofDocument? L (bs.only "backend") = some b ∧ ofDocument? L (bs.only "debug") = some d
        ∧ c = ⟨b.backend, d.debug⟩ := by
  rw [ofDocument?_sections hL]
  simp only [Option.bind_eq_bind, Option.pure_def, Option.bind_eq_some_iff, Option.some.injEq]
  constructor
  · rintro ⟨b, hb, d, hd, rfl⟩
    exact ⟨b, d, hb, hd, rfl⟩
  · rintro ⟨b, d, hb, hd, rfl⟩
    exact ⟨b, hb, d, hd, rfl⟩

/-- Documents that have the same under every name have the same settings. -/
theorem ofDocument?_agree (hL : L.Conforms Says) {bs cs : Branches} (h : bs.Agree cs) :
    ofDocument? L bs = ofDocument? L cs := by
  rw [ofDocument?_sections hL, h, h, ← ofDocument?_sections hL]

/-! ## What a section gives -/

/-- The document says nothing about a field of a section: it has no such section, or a table
without that field. -/
def Unset (name field : String) (bs : Branches) : Prop :=
  bs.only name = [] ∨ ∃ fs : Branches, bs.only name = [(name, .table fs)] ∧ fs.only field = []

theorem ofDocument?_nil (hL : L.Conforms Says) : ofDocument? L [] = some standard :=
  hL.record?_table (declaration L) []

theorem ofDocument?_backend (hL : L.Conforms Says) (v : Tree) :
    ofDocument? L [("backend", v)]
      = (L.record? (Backend.declaration L) v).map fun backend => ⟨backend, .standard⟩ := by
  rw [ofDocument?, hL.record?_table, Declaration.ofBranches?, List.foldlM_cons, enter?_backend]
  cases L.record? (Backend.declaration L) v <;> rfl

theorem ofDocument?_debug (hL : L.Conforms Says) (v : Tree) :
    ofDocument? L [("debug", v)]
      = (L.record? (Debug.declaration L) v).map fun debug => ⟨.standard, debug⟩ := by
  rw [ofDocument?, hL.record?_table, Declaration.ofBranches?, List.foldlM_cons, enter?_debug]
  cases L.record? (Debug.declaration L) v <;> rfl

/-! ## Reading a text -/

theorem read?_eq_ofDocument? (hL : L.Conforms Says) {text : String} {bs : Branches}
    (h : Says text bs) : read? L text = ofDocument? L bs := by
  simp [read?, Library.read?, hL.parse?_eq h, ofDocument?]

/-- The settings in a text that says the document `bs` depend on it section by section, and on
nothing that is not declared. -/
structure ReadBySection (L : Library) (Says : String → Branches → Prop) (text : String)
    (bs : Branches) : Prop where
  /-- Without what is not declared the document has the same settings, or none as before. -/
  read?_eq : read? L text = ofDocument? L (declared bs)
  /-- So has every text that says no more than that. -/
  deleted : ∀ text' bs', Says text' bs' → bs'.Agree (declared bs) → read? L text' = read? L text
  /-- So has every text that declares the same, whatever else it says. -/
  agree : ∀ text' bs', Says text' bs' → (declared bs').Agree (declared bs) →
    read? L text' = read? L text
  /-- The settings are there exactly if each section by itself has settings; each gives its own. -/
  sections : ∀ c, read? L text = some c ↔
    ∃ b d, ofDocument? L (bs.only "backend") = some b ∧ ofDocument? L (bs.only "debug") = some d
      ∧ c = ⟨b.backend, d.debug⟩
  /-- The same with each section in a text by itself. -/
  texts : ∀ textB textD bsB bsD, Says textB bsB → Says textD bsD →
    bsB.Agree (bs.only "backend") → bsD.Agree (bs.only "debug") →
    ∀ c, read? L text = some c ↔
      ∃ b d, read? L textB = some b ∧ read? L textD = some d ∧ c = ⟨b.backend, d.debug⟩
  /-- Where the section or its field is missing, the section by itself gives the defaults. -/
  mode_unset : Unset "backend" "mode" bs → ofDocument? L (bs.only "backend") = some standard
  printIR_unset : Unset "debug" "print_ir" bs → ofDocument? L (bs.only "debug") = some standard
  /-- Where the section has the field, the field decides. -/
  mode_set : ∀ fs v, bs.only "backend" = [("backend", .table fs)] →
    Branches.only "mode" fs = [("mode", v)] →
    ofDocument? L (bs.only "backend")
      = (L.choice? Mode.alternatives v).map fun mode => ⟨⟨mode⟩, .standard⟩
  printIR_set : ∀ fs v, bs.only "debug" = [("debug", .table fs)] →
    Branches.only "print_ir" fs = [("print_ir", v)] →
    ofDocument? L (bs.only "debug") = (L.boolean? v).map fun printIR => ⟨.standard, ⟨printIR⟩⟩

/-- A valid document is read section by section, whatever library reads it as documented. What is
not declared cannot make it fail, mend it or change a setting, and a section that is good does not
hide one that is bad. -/
theorem settings_read_by_section (hL : L.Conforms Says) {text : String} {bs : Branches}
    (h : Says text bs) : ReadBySection L Says text bs where
  read?_eq := by rw [read?_eq_ofDocument? hL h, ofDocument?_declared hL]
  deleted text' bs' h' same := by
    rw [read?_eq_ofDocument? hL h', read?_eq_ofDocument? hL h, ofDocument?_agree hL same,
      ofDocument?_declared hL]
  agree text' bs' h' same := by
    rw [read?_eq_ofDocument? hL h', read?_eq_ofDocument? hL h, ← ofDocument?_declared hL bs',
      ofDocument?_agree hL same, ofDocument?_declared hL]
  sections c := by
    rw [read?_eq_ofDocument? hL h]
    exact ofDocument?_eq_some_iff hL
  texts textB textD bsB bsD hB hD sameB sameD c := by
    rw [read?_eq_ofDocument? hL h, read?_eq_ofDocument? hL hB, read?_eq_ofDocument? hL hD,
      ofDocument?_agree hL sameB, ofDocument?_agree hL sameD]
    exact ofDocument?_eq_some_iff hL
  mode_unset unset := by
    rcases unset with none | ⟨fs, table, none⟩
    · rw [none, ofDocument?_nil hL]
    · rw [table, ofDocument?_backend hL, hL.record?_unset backend_fields none]
      rfl
  printIR_unset unset := by
    rcases unset with none | ⟨fs, table, none⟩
    · rw [none, ofDocument?_nil hL]
    · rw [table, ofDocument?_debug hL, hL.record?_unset debug_fields none]
      rfl
  mode_set fs v table set := by
    rw [table, ofDocument?_backend hL, Backend.declaration, hL.record?_set set]
    simp [Field.of, Option.map_map, Function.comp_def]
  printIR_set fs v table set := by
    rw [table, ofDocument?_debug hL, Debug.declaration, hL.record?_set set]
    simp [Field.of, Option.map_map, Function.comp_def]

/-- A settings file with much that is not declared. -/
def cluttered : String :=
  "title = [[1]]\n[debug]\nprint_ir = true\nlevel = 3\n[backend]\nmode = \"aggregate\"\n"

def clutteredBranches : Branches :=
  [("title", .array [.array [.integer 1]]),
    ("debug", .table [("print_ir", .boolean true), ("level", .integer 3)]),
    ("backend", .table [("mode", .string "aggregate")])]

/-- What it declares, written in another way and in another order. -/
def tidy : String := "backend.mode = 'aggregate'\ndebug.print_ir = true\n"

def tidyBranches : Branches :=
  [("backend", .table [("mode", .string "aggregate")]),
    ("debug", .table [("print_ir", .boolean true)])]

/-- The two files with what they say. -/
def samples : List (String × Branches) := [(cluttered, clutteredBranches), (tidy, tidyBranches)]

theorem tidy_agree : tidyBranches.Agree (declared clutteredBranches) := by
  have hdeclared : declared clutteredBranches = tidyBranches.reverse := by
    simp [declared, clutteredBranches, fieldOf?, Tree.only, Branches.only, tidyBranches]
  intro name
  rw [hdeclared]
  by_cases hb : "backend" = name
  · subst hb
    rfl
  · have hb : ("backend" == name) = false := by simpa using hb
    simp [Branches.only, tidyBranches, List.filter_cons, hb]

theorem builtin_conforms_samples :
    Toml.builtin.Conforms fun text bs => (text, bs) ∈ samples where
  parse?_eq h := by
    simp only [samples, List.mem_cons, Prod.mk.injEq, List.not_mem_nil, or_false] at h
    rcases h with ⟨rfl, rfl⟩ | ⟨rfl, rfl⟩
    · decide +kernel
    · decide +kernel
  record?_table _ _ := rfl

theorem settings_read_cluttered :
    (Toml.builtin.Conforms fun text bs => (text, bs) ∈ samples)
      ∧ (cluttered, clutteredBranches) ∈ samples
      ∧ ofText? tidy = ofText? cluttered
      ∧ ofText? cluttered = some ⟨⟨.aggregate⟩, ⟨true⟩⟩ := by
  have hc : (cluttered, clutteredBranches) ∈ samples := List.mem_cons_self
  have ht : (tidy, tidyBranches) ∈ samples := List.mem_cons_of_mem _ List.mem_cons_self
  have reads := settings_read_by_section builtin_conforms_samples hc
  refine ⟨builtin_conforms_samples, hc, reads.deleted tidy tidyBranches ht tidy_agree, ?_⟩
  refine reads.read?_eq.trans ?_
  decide +kernel

end Config

end JoinIR
