import Recompile.Proofs.ClassFile.Naming

/-!
# The references of a class file

The surface has every class that the file names, on the side where it belongs,
but for the class itself and the runtime library.
-/

namespace Recompile
namespace ClassFile

variable {layout : Layout}

def Layout.Exposes (layout : Layout) (name : ClassName) : Prop :=
  ∃ owner type, layout.Declares owner type ∧ owner.isPrivate = false ∧ type.element = .object name

def Layout.Hides (layout : Layout) (name : ClassName) : Prop :=
  (∃ owner type, layout.Declares owner type ∧ owner.isPrivate = true ∧
    type.element = .object name) ∨
  ∃ constant ∈ layout.pool.entries.toList, ∃ type, layout.pool.Mentions constant type ∧
    type.element = .object name

theorem Layout.exposes_iff {name : ClassName} :
    layout.Exposes name ↔ ∃ occurrence, layout.Refers occurrence ∧
      occurrence.isExposed = true ∧ occurrence.Names name := by
  constructor
  · rintro ⟨owner, type, hdeclares, hvisible, hname⟩
    exact ⟨.declared owner type, hdeclares, by simp [Occurrence.isExposed, hvisible], hname⟩
  · rintro ⟨occurrence, hrefers, hexposed, hname⟩
    cases occurrence with
    | declared owner type =>
        exact ⟨owner, type, hrefers, by simpa [Occurrence.isExposed] using hexposed, hname⟩
    | mentioned type => cases hexposed

theorem Layout.hides_iff {name : ClassName} :
    layout.Hides name ↔ ∃ occurrence, layout.Refers occurrence ∧
      occurrence.isExposed = false ∧ occurrence.Names name := by
  constructor
  · rintro (⟨owner, type, hdeclares, hprivate, hname⟩ |
      ⟨constant, hconstant, type, hmentions, hname⟩)
    · exact ⟨.declared owner type, hdeclares, by simp [Occurrence.isExposed, hprivate], hname⟩
    · exact ⟨.mentioned type, ⟨constant, hconstant, hmentions⟩, rfl, hname⟩
  · rintro ⟨occurrence, hrefers, hexposed, hname⟩
    cases occurrence with
    | declared owner type =>
        exact Or.inl ⟨owner, type, hrefers, by simpa [Occurrence.isExposed] using hexposed, hname⟩
    | mentioned type =>
        rcases hrefers with ⟨constant, hconstant, hmentions⟩
        exact Or.inr ⟨constant, hconstant, type, hmentions, hname⟩

/-!
# What is read of a class file
-/

def Layout.HasSuper (layout : Layout) : Option ClassName → Prop
  | none => layout.superClass = 0
  | some name => layout.superClass ≠ 0 ∧ layout.pool.classAt layout.superClass = .ok name

structure Layout.Answers (layout : Layout) where
  superClass : Option ClassName
  interfaces : List ClassName
  fields : List (FieldDecl × Option SharedConstant)
  methods : List MethodDecl
  mentions : List JavaType
  hsuperClass : layout.HasSuper superClass
  hinterfaces : layout.interfaces.mapM layout.pool.classAt = .ok interfaces
  hfields : layout.fields.mapM (readField layout) = .ok fields
  hmethods : layout.methods.mapM (readMethod layout) = .ok methods
  hmentions : poolTypes layout.pool = .ok mentions

namespace Layout.Answers

def declarations (answers : layout.Answers) : List Declaration :=
  (layout.flags, (answers.superClass.toList ++ answers.interfaces).map JavaType.object)
    :: (answers.fields.map fun (field, _) => fieldDeclaration field)
    ++ answers.methods.map methodDeclaration

def met (answers : layout.Answers) : List Occurrence :=
  declaredOccurrences answers.declarations ++ answers.mentions.map .mentioned

end Layout.Answers

theorem answers_of_surfaceOf {bytes : Bytes} {surface : ClassSurface}
    (h : surfaceOf bytes = .ok surface) :
    ∃ (layout : Layout) (answers : layout.Answers), Layout.ofBytes bytes = .ok layout ∧
      layout.className = .ok surface.name ∧
      surface.references = References.ofOccurrences surface.name answers.met := by
  unfold surfaceOf at h
  rcases bind_eq_ok.mp h with ⟨layout, hlayout, h⟩
  rcases bind_eq_ok.mp h with ⟨name, hname, h⟩
  simp only [classAt_eq] at h
  -- What comes behind the superclass does not depend on whether there is one.
  split at h
  case' isTrue hzero =>
    rcases bind_eq_ok.mp h with ⟨superClass, hsuper, h⟩
    have hsuperClass : layout.HasSuper superClass := by
      cases hsuper
      exact hzero
  case' isFalse hsome =>
    rcases bind_eq_ok.mp h with ⟨text, htext, h⟩
    rcases bind_eq_ok.mp h with ⟨superClass, hsuper, h⟩
    have hsuperClass : layout.HasSuper superClass := by
      cases hsuper
      exact ⟨hsome, by rw [Pool.classAt, htext]; rfl⟩
  all_goals
    rcases bind_eq_ok.mp h with ⟨interfaces, hinterfaces, h⟩
    rcases bind_eq_ok.mp h with ⟨fields, hfields, h⟩
    rcases bind_eq_ok.mp h with ⟨methods, hmethods, h⟩
    rcases bind_eq_ok.mp h with ⟨mentions, hmentions, h⟩
    cases h
    exact ⟨layout, ⟨superClass, interfaces, fields, methods, mentions, hsuperClass,
      hinterfaces, hfields, hmethods, hmentions⟩, hlayout, hname, collect_eq _ _ _⟩

namespace Layout.Answers

variable (answers : layout.Answers)

theorem mem_supertypes {name : ClassName} :
    name ∈ answers.superClass.toList ++ answers.interfaces ↔
      (layout.superClass ≠ 0 ∧ layout.pool.classAt layout.superClass = .ok name) ∨
        ∃ index ∈ layout.interfaces, layout.pool.classAt index = .ok name := by
  have hinterface : (∃ found ∈ answers.interfaces, found = name) ↔
      ∃ index ∈ layout.interfaces, layout.pool.classAt index = .ok name := by
    apply exists_answer_iff answers.hinterfaces
    intro index found hfound
    rw [hfound, Except.ok.injEq]
  rw [List.mem_append, ← hinterface, exists_eq_right]
  apply or_congr_left
  have hsuper := answers.hsuperClass
  cases hclass : answers.superClass with
  | none =>
      rw [hclass] at hsuper
      exact iff_of_false nofun fun h => h.1 hsuper
  | some found =>
      rw [hclass] at hsuper
      rw [Option.toList_some, List.mem_singleton, hsuper.2, Except.ok.injEq, @eq_comm _ found]
      exact (and_iff_right hsuper.1).symm

theorem mem_fields {owner : Modifiers} {type : JavaType} :
    (∃ field ∈ answers.fields, field.1.flags = owner ∧ field.1.type = type) ↔
      ∃ member ∈ layout.fields, member.flags = owner ∧
        ∃ text, layout.pool.text member.descriptor = .ok text ∧
          JavaType.ofField text = .ok type := by
  apply exists_answer_iff answers.hfields
  intro member field hfield
  rcases of_readField hfield with ⟨hflags, text, htext, htype⟩
  rw [hflags]
  apply and_congr_right'
  constructor
  · rintro rfl
    exact ⟨text, htext, htype⟩
  · rintro ⟨text', htext', htype'⟩
    cases htext.symm.trans htext'
    exact Except.ok.inj (htype.symm.trans htype')

theorem mem_methods {owner : Modifiers} {type : JavaType} :
    (∃ method ∈ answers.methods, method.flags = owner ∧ type ∈ (methodDeclaration method).2) ↔
      ∃ member ∈ layout.methods, member.flags = owner ∧
        ((∃ text descriptor, layout.pool.text member.descriptor = .ok text ∧
            MethodType.ofText text = .ok descriptor ∧ type ∈ descriptor.types) ∨
          ∃ data indexes index name,
            layout.attribute? member.attributes "Exceptions" = some data ∧
              Lists data indexes ∧ index ∈ indexes ∧ layout.pool.classAt index = .ok name ∧
                JavaType.object name = type) := by
  apply exists_answer_iff answers.hmethods
  intro member method hmethod
  rcases of_readMethod hmethod with ⟨hflags, ⟨text, htext, hdescriptor⟩, _, hthrown⟩
  rw [hflags]
  apply and_congr_right'
  have htypes : type ∈ (methodDeclaration method).2 ↔
      type ∈ (MethodType.mk method.signature.parameters method.signature.result).types ∨
        ∃ name ∈ method.exceptions, JavaType.object name = type := by
    simp [methodDeclaration, MethodType.types, or_assoc, Std.ExtTreeSet.mem_toList]
  rw [htypes]
  apply or_congr
  · constructor
    · intro htype
      exact ⟨text, _, htext, hdescriptor, htype⟩
    · rintro ⟨text', descriptor', htext', hdescriptor', htype⟩
      cases htext.symm.trans htext'
      cases hdescriptor.symm.trans hdescriptor'
      exact htype
  · constructor
    · rintro ⟨name, hname, htype⟩
      rcases (hthrown name).mp hname with ⟨data, indexes, index, hdata, hlists, hindex, hanswer⟩
      exact ⟨data, indexes, index, name, hdata, hlists, hindex, hanswer, htype⟩
    · rintro ⟨data, indexes, index, name, hdata, hlists, hindex, hanswer, htype⟩
      exact ⟨name, (hthrown name).mpr ⟨data, indexes, index, hdata, hlists, hindex, hanswer⟩, htype⟩

theorem declares_iff {owner : Modifiers} {type : JavaType} :
    (∃ declaration ∈ answers.declarations, declaration.1 = owner ∧ type ∈ declaration.2) ↔
      layout.Declares owner type := by
  have hparts : (∃ declaration ∈ answers.declarations,
        declaration.1 = owner ∧ type ∈ declaration.2) ↔
      (layout.flags = owner ∧ ∃ name ∈ answers.superClass.toList ++ answers.interfaces,
        JavaType.object name = type) ∨
      (∃ field ∈ answers.fields, field.1.flags = owner ∧ field.1.type = type) ∨
      ∃ method ∈ answers.methods,
        method.flags = owner ∧ type ∈ (methodDeclaration method).2 := by
    unfold declarations fieldDeclaration
    simp only [List.cons_append, List.mem_cons, List.mem_append, List.mem_map, or_and_right,
      exists_or, exists_eq_left, exists_exists_and_eq_and, List.not_mem_nil, or_false,
      @eq_comm _ type, and_or_left]
    rfl
  rw [hparts, answers.mem_fields, answers.mem_methods]
  constructor
  · rintro (⟨rfl, name, hname, rfl⟩ | ⟨member, hmember, rfl, text, htext, htype⟩ |
      ⟨member, hmember, rfl, ⟨text, descriptor, htext, hdescriptor, htype⟩ |
        ⟨data, indexes, index, name, hdata, hlists, hindex, hname, rfl⟩⟩)
    · rcases answers.mem_supertypes.mp hname with ⟨hsome, hname⟩ | ⟨index, hindex, hname⟩
      · exact .superclass hsome hname
      · exact .interface hindex hname
    · exact .field hmember htext htype
    · exact .method hmember htext hdescriptor htype
    · exact .thrown hmember hdata hlists hindex hname
  · intro h
    cases h with
    | superclass hsome hname =>
        exact Or.inl ⟨rfl, _, answers.mem_supertypes.mpr (Or.inl ⟨hsome, hname⟩), rfl⟩
    | interface hindex hname =>
        exact Or.inl ⟨rfl, _, answers.mem_supertypes.mpr (Or.inr ⟨_, hindex, hname⟩), rfl⟩
    | field hmember htext htype =>
        exact Or.inr (Or.inl ⟨_, hmember, rfl, _, htext, htype⟩)
    | method hmember htext hdescriptor htype =>
        exact Or.inr (Or.inr ⟨_, hmember, rfl, Or.inl ⟨_, _, htext, hdescriptor, htype⟩⟩)
    | thrown hmember hdata hlists hindex hname =>
        exact Or.inr (Or.inr ⟨_, hmember, rfl,
          Or.inr ⟨_, _, _, _, hdata, hlists, hindex, hname, rfl⟩⟩)

include answers in
theorem types_of_mem {constant : Constant} (h : constant ∈ layout.pool.entries.toList) :
    ∃ types, mentionedTypes layout.pool constant = .ok types := by
  rcases bind_eq_ok.mp answers.hmentions with ⟨lists, hlists, _⟩
  rcases (members_of_mapM hlists).1 constant h with ⟨types, _, htypes⟩
  exact ⟨types, htypes⟩

theorem mentions_iff {type : JavaType} :
    type ∈ answers.mentions ↔
      ∃ constant ∈ layout.pool.entries.toList, layout.pool.Mentions constant type := by
  rcases bind_eq_ok.mp answers.hmentions with ⟨lists, hlists, hflatten⟩
  rw [← Except.ok.inj hflatten, List.mem_flatten]
  apply exists_answer_iff hlists
  intro constant types htypes
  exact mem_mentionedTypes htypes type

theorem mem_met (occurrence : Occurrence) :
    occurrence ∈ answers.met ↔ layout.Refers occurrence := by
  cases occurrence with
  | declared owner type =>
      show _ ↔ layout.Declares owner type
      rw [← answers.declares_iff]
      simp [met, declaredOccurrences]
  | mentioned type =>
      show _ ↔ ∃ constant ∈ layout.pool.entries.toList, layout.pool.Mentions constant type
      rw [← answers.mentions_iff]
      simp [met, declaredOccurrences]

include answers in
theorem legible : layout.Legible where
  superClass hsome := by
    have hsuper := answers.hsuperClass
    cases hclass : answers.superClass with
    | none =>
        rw [hclass] at hsuper
        exact absurd hsuper hsome
    | some name =>
        rw [hclass] at hsuper
        exact ⟨name, hsuper.2⟩
  interfaces index hindex := by
    rcases (members_of_mapM answers.hinterfaces).1 index hindex with ⟨name, _, hname⟩
    exact ⟨name, hname⟩
  fields member hmember := by
    rcases (members_of_mapM answers.hfields).1 member hmember with ⟨field, _, hfield⟩
    rcases (of_readField hfield).2 with ⟨text, htext, htype⟩
    exact ⟨text, _, htext, htype⟩
  methods member hmember := by
    rcases (members_of_mapM answers.hmethods).1 member hmember with ⟨method, _, hmethod⟩
    rcases (of_readMethod hmethod).2.1 with ⟨text, htext, hdescriptor⟩
    exact ⟨text, _, htext, hdescriptor⟩
  exceptions member hmember := by
    rcases (members_of_mapM answers.hmethods).1 member hmember with ⟨method, _, hmethod⟩
    exact (of_readMethod hmethod).2.2.1
  classEntries index hentry := by
    rcases answers.types_of_mem hentry with ⟨types, htypes⟩
    rcases mem_mentionedTypes_classEntry htypes with ⟨hsome, hmentions⟩
    rcases List.exists_mem_of_ne_nil types hsome with ⟨type, htype⟩
    exact ⟨type, (hmentions type).mp htype⟩
  descriptors constant hentry index hindex := by
    rcases answers.types_of_mem hentry with ⟨types, htypes⟩
    rcases mem_mentionedTypes_descriptor hindex htypes with ⟨hsome, hmentions⟩
    rcases List.exists_mem_of_ne_nil types hsome with ⟨type, htype⟩
    exact ⟨type, (hmentions type).mp htype⟩

end Layout.Answers

/--
The references of a class are what its file names: what declarations name that
are not private is exposed, and what is named besides is internal. The class
itself and the runtime library are left out, nothing else is, and the order in
which types are met does not matter.
-/
theorem references_of_surfaceOf {bytes : Bytes} {surface : ClassSurface}
    (h : surfaceOf bytes = .ok surface) :
    ∃ layout, Layout.ofBytes bytes = .ok layout ∧ layout.className = .ok surface.name ∧
      layout.Legible ∧
      (∀ name, name ∈ surface.references.exposed ↔
        layout.Exposes name ∧ name ≠ surface.name ∧ ¬name.InRuntime) ∧
      (∀ name, name ∈ surface.references.internal ↔
        (layout.Hides name ∧ name ≠ surface.name ∧ ¬name.InRuntime) ∧
          name ∉ surface.references.exposed) ∧
      (∀ name ∈ surface.references.exposed, name ∉ surface.references.internal) ∧
      surface.name ∉ surface.references.exposed ∧ surface.name ∉ surface.references.internal ∧
      (∀ occurrence name, layout.Refers occurrence → occurrence.Names name →
        name = surface.name ∨ name.InRuntime ∨
          name ∈ surface.references.exposed ∨ name ∈ surface.references.internal) ∧
      ∃ met : List Occurrence, (∀ occurrence, occurrence ∈ met ↔ layout.Refers occurrence) ∧
        ∀ order, (∀ occurrence, occurrence ∈ order ↔ occurrence ∈ met) →
          References.ofOccurrences surface.name order = surface.references := by
  rcases answers_of_surfaceOf h with ⟨layout, answers, hlayout, hname, hreferences⟩
  have hexposed : ∀ name, name ∈ surface.references.exposed ↔
      layout.Exposes name ∧ name ≠ surface.name ∧ ¬name.InRuntime := by
    intro name
    rw [hreferences, References.mem_exposed_ofOccurrences, Layout.exposes_iff]
    simp only [answers.mem_met]
  have hinternal : ∀ name, name ∈ surface.references.internal ↔
      (layout.Hides name ∧ name ≠ surface.name ∧ ¬name.InRuntime) ∧
        name ∉ surface.references.exposed := by
    intro name
    rw [hreferences, References.mem_internal_ofOccurrences, Layout.hides_iff]
    simp only [answers.mem_met]
  refine ⟨layout, hlayout, hname, answers.legible, hexposed, hinternal, ?_, ?_, ?_, ?_,
    answers.met, answers.mem_met, ?_⟩
  · intro name hmem
    rw [hinternal]
    exact fun hboth => hboth.2 hmem
  · rw [hexposed]
    exact fun hown => hown.2.1 rfl
  · rw [hinternal]
    exact fun hown => hown.1.2.1 rfl
  · intro occurrence name hrefers hnames
    by_cases hown : name = surface.name
    · exact Or.inl hown
    by_cases hruntime : name.InRuntime
    · exact Or.inr (Or.inl hruntime)
    by_cases hmem : name ∈ surface.references.exposed
    · exact Or.inr (Or.inr (Or.inl hmem))
    -- What is not exposed by any declaration has been met outside of those others can see.
    have hhidden : layout.Hides name := by
      apply Layout.hides_iff.mpr
      refine ⟨occurrence, hrefers, ?_, hnames⟩
      rw [← Bool.not_eq_true]
      intro hvisible
      exact hmem ((hexposed name).mpr
        ⟨Layout.exposes_iff.mpr ⟨occurrence, hrefers, hvisible, hnames⟩, hown, hruntime⟩)
    exact Or.inr (Or.inr (Or.inr ((hinternal name).mpr ⟨⟨hhidden, hown, hruntime⟩, hmem⟩)))
  · intro order horder
    rw [hreferences]
    exact References.ofOccurrences_congr horder

def referringContent : Content where
  version := ⟨52, 0⟩
  count := 20
  entries := [.text (Bytes.ofText "a/X"), .classEntry 1, .text (Bytes.ofText "a/S"),
    .classEntry 3, .text (Bytes.ofText "java/I"), .classEntry 5, .text (Bytes.ofText "f"),
    .text (Bytes.ofText "[La/P;"), .text (Bytes.ofText "La/F;"),
    .text (Bytes.ofText "(La/Q;)La/X;"), .text (Bytes.ofText "a/T"), .classEntry 11,
    .text (Bytes.ofText "Exceptions"), .text (Bytes.ofText "[La/E;"), .classEntry 14,
    .nameAndType 7 17, .text (Bytes.ofText "La/N;"), .methodType 19,
    .text (Bytes.ofText "(La/M;)V")]
  flags := ⟨0x21⟩
  thisClass := 2
  superClass := 4
  interfaces := [6]
  fields := [⟨⟨2⟩, 7, 8, []⟩, ⟨⟨0⟩, 7, 9, []⟩]
  methods := [⟨⟨1⟩, 7, 10, [⟨13, [0, 1, 0, 12]⟩]⟩]
  attributes := []

theorem references_of_referringContent :
    ∃ surface, surfaceOf referringContent.bytes = .ok surface ∧
      surface.references.exposed.toList = [⟨"a.F"⟩, ⟨"a.Q"⟩, ⟨"a.S"⟩, ⟨"a.T"⟩] ∧
      surface.references.internal.toList = [⟨"a.E"⟩, ⟨"a.M"⟩, ⟨"a.N"⟩, ⟨"a.P"⟩] ∧
      ∀ name ∈ surface.references.exposed, name ∉ surface.references.internal := by
  have hread : (surfaceOf referringContent.bytes >>= fun surface =>
      pure (surface.references.exposed.toList, surface.references.internal.toList)) =
      .ok ([⟨"a.F"⟩, ⟨"a.Q"⟩, ⟨"a.S"⟩, ⟨"a.T"⟩], [⟨"a.E"⟩, ⟨"a.M"⟩, ⟨"a.N"⟩, ⟨"a.P"⟩]) := by
    decide +kernel
  rcases bind_eq_ok.mp hread with ⟨surface, hsurface, hlists⟩
  rcases references_of_surfaceOf hsurface with ⟨_, _, _, _, _, _, hdisjoint, _⟩
  have hboth := Prod.mk.inj (Except.ok.inj hlists)
  exact ⟨surface, hsurface, hboth.1, hboth.2, hdisjoint⟩

end ClassFile
end Recompile
