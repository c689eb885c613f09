import Recompile.ClassFile.Surface
import Recompile.Proofs.ClassFile.Content
import Recompile.Proofs.ClassFile.Faults
import Recompile.Proofs.Text.ModifiedUtf8

/-!
# The texts of a class file

A text of the pool is written as code units, and these may be any: a literal
may have a surrogate in it without its partner. Such a text is refused, with
its index, before anything behind it is looked at. All other texts are read,
and no byte string that is written as code units is refused for any other
reason.
-/

namespace Recompile
namespace ClassFile

namespace Entry

def IsBroken (entry : Entry) : Prop :=
  ∃ raw, entry = .text raw ∧ raw.length < 2 ^ 16 ∧ ModifiedUtf8.decode? raw = none

theorem IsBroken.tag_eq {entry : Entry} (h : entry.IsBroken) : entry.tag = 1 := by
  rcases h with ⟨raw, rfl, _⟩
  rfl

end Entry

def Content.front (version : FormatVersion) : Bytes :=
  Bytes.ofNat 4 magic.toNat ++ (Entry.short version.minor ++ Entry.short version.major)

/-!
# The fault of a text
-/

namespace Decoder

variable {place : Nat}

theorem unexpectedEnd_ne_badText (place offset wanted : Nat) :
    Fault.unexpectedEnd offset wanted ≠ .badText place :=
  nofun

theorem faults_readText (index : Nat) :
    Faults (readText index) (.badText place) fun bytes =>
      place = index ∧ ∃ (entry : Entry) (rest : Bytes), entry.IsBroken ∧
        bytes = entry.payload ++ rest := by
  have hend := unexpectedEnd_ne_badText place
  apply (Avoids.bind_faults reads_u2 (avoids_u2 hend) _ fun length =>
    Avoids.bind_faults (reads_take length.toNat) (avoids_take hend _)
      (fun raw _ => place = index ∧ ModifiedUtf8.decode? raw = none) fun raw => ?decoded).congr
  case decoded =>
    cases hdecode : ModifiedUtf8.decode? raw with
    | none =>
        intro cursor
        constructor
        · intro h
          cases h
          exact ⟨rfl, rfl⟩
        · rintro ⟨rfl, _⟩
          rfl
    | some value => exact (avoids_pure _).faults.congr fun _ => by simp
  intro bytes
  constructor
  · rintro ⟨length, _, _, rfl, rfl, raw, _, rest, ⟨rfl, hlength⟩, rfl, hindex, hdecode⟩
    have hfits := length.toNat_lt
    rw [← hlength] at hfits
    refine ⟨hindex, .text raw, rest, ⟨raw, rfl, hfits, hdecode⟩, ?_⟩
    rw [Entry.payload, hlength, List.append_assoc]
  · rintro ⟨hindex, _, rest, ⟨raw, rfl, hfits, hdecode⟩, rfl⟩
    have hnumber := UInt16.toNat_ofNat_of_lt' hfits
    refine ⟨UInt16.ofNat raw.length, _, raw ++ rest, rfl, ?_,
      raw, _, rest, ⟨rfl, hnumber.symm⟩, rfl, hindex, hdecode⟩
    rw [Entry.payload, hnumber, List.append_assoc]

theorem faults_readConstant (index : Nat) :
    Faults (readConstant index) (.badText place) fun bytes =>
      place = index ∧ ∃ (entry : Entry) (rest : Bytes), entry.IsBroken ∧
        bytes = entry.bytes ++ rest := by
  have hend := unexpectedEnd_ne_badText place
  apply (Avoids.bind_faults reads_u1 (avoids_u1 hend) (fun byte bytes =>
    byte.toNat = 1 ∧ place = index ∧ ∃ (entry : Entry) (rest : Bytes), entry.IsBroken ∧
      bytes = entry.payload ++ rest) ?_).congr
  · intro bytes
    constructor
    · rintro ⟨byte, _, _, rfl, rfl, htag, hindex, entry, rest, hentry, rfl⟩
      refine ⟨hindex, entry, rest, hentry, ?_⟩
      rw [Entry.bytes, hentry.tag_eq, ← htag, UInt8.ofNat_toNat]
      rfl
    · rintro ⟨hindex, entry, rest, hentry, rfl⟩
      refine ⟨1, _, _, rfl, ?_, rfl, hindex, entry, rest, hentry, rfl⟩
      rw [Entry.bytes, hentry.tag_eq]
      rfl
  · intro byte
    generalize byte.toNat = tag
    by_cases htag : tag = 1
    · subst htag
      exact (faults_readText index).congr fun _ => (and_iff_right rfl).symm
    · refine Faults.congr (Avoids.faults ?_) fun _ => iff_of_false id fun h => htag h.1
      split
      case h_1 => exact absurd rfl htag
      case h_2 | h_3 => exact (avoids_u4 hend).map _
      case h_4 | h_5 => exact (avoids_u8 hend).map _
      case h_6 | h_7 | h_13 => exact (avoids_u2 hend).map _
      case h_11 =>
        exact (avoids_u2 hend).bind fun _ =>
          (avoids_u2 hend).map _
      case h_18 => exact avoids_throw (by simp)
      all_goals exact (avoids_take hend _).map _

def ComesToBroken (bytes : Bytes) (taken : Nat) : Prop :=
  ∃ (before : List Entry) (broken : Entry) (rest : Bytes), (∀ entry ∈ before, entry.Fits) ∧
    broken.IsBroken ∧ taken = widthOf before ∧
    bytes = before.flatMap Entry.bytes ++ (broken.bytes ++ rest)

theorem faults_readSlots (left index : Nat) (filled : Array Constant) :
    Faults (readSlots left index filled) (.badText place) fun bytes =>
      ∃ taken < left, place = index + taken ∧ ComesToBroken bytes taken := by
  induction left using Nat.strongRecOn generalizing index filled with
  | ind left ih =>
  cases left with
  | zero => exact (avoids_pure _).faults.congr fun _ => by simp
  | succ left =>
      rw [readSlots]
      apply ((faults_readConstant index).bind (reads_readConstant index) (fun constant bytes =>
        ∃ taken, constant.slots.length + taken < left + 1 ∧
          place = index + (constant.slots.length + taken) ∧ ComesToBroken bytes taken) ?_).congr
      · intro bytes
        constructor
        · rintro (⟨rfl, broken, rest, hbroken, rfl⟩ | ⟨_, _, rest, ⟨entry, hentry, rfl, rfl⟩, rfl,
            taken, hlt, rfl, before, broken, rest', hbefore, hbroken, rfl, rfl⟩)
          · exact ⟨0, Nat.succ_pos left, rfl, [], broken, rest, List.forall_mem_nil _, hbroken, rfl,
              rfl⟩
          · rw [entry.length_slots] at hlt ⊢
            refine ⟨_, hlt, rfl, entry :: before, broken, rest',
              List.forall_mem_cons.mpr ⟨hentry, hbefore⟩, hbroken, rfl, ?_⟩
            rw [List.flatMap_cons, List.append_assoc]
        · rintro ⟨_, hlt, rfl, before, broken, rest, hbefore, hbroken, rfl, rfl⟩
          cases before with
          | nil => exact Or.inl ⟨rfl, broken, rest, hbroken, rfl⟩
          | cons entry before =>
              rcases List.forall_mem_cons.mp hbefore with ⟨hentry, hbefore⟩
              rw [widthOf_cons, ← entry.length_slots] at hlt ⊢
              refine Or.inr ⟨_, _, _, ⟨entry, hentry, rfl, rfl⟩, ?_, _, hlt, rfl,
                before, broken, rest, hbefore, hbroken, rfl, rfl⟩
              rw [List.flatMap_cons, List.append_assoc]
      · intro constant
        unfold Constant.slots
        cases hwide : constant.isWide with
        | false =>
            apply (ih left (Nat.lt_succ_self left) (index + 1) (filled.push constant)).congr
            intro bytes
            simp [Nat.add_assoc, Nat.add_comm 1]
        | true =>
            cases left with
            | zero =>
                have hother : Fault.wideAtEnd index ≠ .badText place := by simp
                apply (avoids_throw hother).faults.congr
                intro bytes
                simp
            | succ left =>
                apply (ih left (by omega) (index + 2) ((filled.push constant).push .unusable)).congr
                intro bytes
                simp [Nat.add_assoc, Nat.add_comm 2]

theorem faults_readPool :
    Faults readPool (.badText place) fun bytes =>
      ∃ (count : UInt16) (rest : Bytes) (taken : Nat), 1 + taken < count.toNat ∧
        place = 1 + taken ∧ bytes = Entry.short count ++ rest ∧ ComesToBroken rest taken := by
  have hend := unexpectedEnd_ne_badText place
  apply (Avoids.bind_faults reads_u2 (avoids_u2 hend) _ fun count =>
    (faults_readSlots (count.toNat - 1) 1 #[.unusable]).bind_avoids fun _ => avoids_pure _).congr
  intro bytes
  constructor
  · rintro ⟨count, _, rest, rfl, rfl, taken, hlt, hplace, hbroken⟩
    exact ⟨count, rest, taken, by omega, hplace, rfl, hbroken⟩
  · rintro ⟨count, rest, taken, hlt, hplace, rfl, hbroken⟩
    exact ⟨count, _, rest, rfl, rfl, taken, by omega, hplace, hbroken⟩

theorem faults_readLayout :
    Faults readLayout (.badText place) fun bytes =>
      ∃ (version : FormatVersion) (count : UInt16) (rest : Bytes) (taken : Nat),
        1 + taken < count.toNat ∧ place = 1 + taken ∧
        bytes = Content.front version ++ (Entry.short count ++ rest) ∧
        ComesToBroken rest taken := by
  have hend := unexpectedEnd_ne_badText place
  apply (Avoids.bind_faults reads_u4 (avoids_u4 hend) (fun found bytes =>
    found = magic ∧ ∃ (version : FormatVersion) (count : UInt16) (rest : Bytes) (taken : Nat),
      1 + taken < count.toNat ∧ place = 1 + taken ∧
      bytes = Entry.short version.minor ++ (Entry.short version.major ++
        (Entry.short count ++ rest)) ∧
      ComesToBroken rest taken) fun found => ?behind).congr
  case behind =>
    by_cases hmagic : found = magic
    · rw [if_neg (not_not_intro hmagic)]
      apply (Avoids.bind_faults reads_u2 (avoids_u2 hend) _ fun minor =>
        Avoids.bind_faults reads_u2 (avoids_u2 hend) _ fun major =>
          faults_readPool.bind_avoids fun pool => ?last).congr
      case last =>
        refine (avoids_u2 hend).bind fun _ => (avoids_u2 hend).bind fun _ =>
          (avoids_u2 hend).bind fun _ => (Avoids.counted hend (avoids_u2 hend)).bind fun _ =>
          (Avoids.counted hend (avoids_readMember hend)).bind fun _ =>
          (Avoids.counted hend (avoids_readMember hend)).bind fun _ =>
          (Avoids.counted hend (avoids_readAttribute hend)).bind fun _ =>
          Avoids.bind (fun _ => nofun) fun cursor => ?_
        by_cases hrest : cursor.rest = []
        · rw [if_neg (not_not_intro hrest)]
          exact avoids_pure _
        · rw [if_pos hrest]
          have hother : Fault.trailing cursor.rest.length ≠ .badText place := nofun
          exact avoids_throw_bind hother
      intro bytes
      constructor
      · rintro ⟨minor, _, _, rfl, rfl, major, _, _, rfl, rfl, count, rest, taken, hlt, hplace,
          rfl, hbroken⟩
        exact ⟨hmagic, ⟨major, minor⟩, count, rest, taken, hlt, hplace, rfl, hbroken⟩
      · rintro ⟨_, version, count, rest, taken, hlt, hplace, rfl, hbroken⟩
        exact ⟨version.minor, _, _, rfl, rfl, version.major, _, _, rfl, rfl, count, rest, taken,
          hlt, hplace, rfl, hbroken⟩
    · rw [if_pos hmagic]
      have hother : Fault.badMagic found ≠ .badText place := nofun
      exact (avoids_throw_bind hother).faults.congr fun _ => iff_of_false id fun h => hmagic h.1
  intro bytes
  constructor
  · rintro ⟨_, _, _, rfl, rfl, rfl, version, count, rest, taken, hlt, hplace, rfl, hbroken⟩
    refine ⟨version, count, rest, taken, hlt, hplace, ?_, hbroken⟩
    simp only [Content.front, List.append_assoc]
  · rintro ⟨version, count, rest, taken, hlt, hplace, rfl, hbroken⟩
    refine ⟨magic, _, _, rfl, ?_, rfl, version, count, rest, taken, hlt, hplace, rfl, hbroken⟩
    simp only [Content.front, List.append_assoc]

end Decoder

/-!
# Which texts are refused
-/

namespace Entry

variable {entry : Entry}

/-- An entry as it may be written: a text holds code units, whichever these are. -/
def IsSpelled : Entry → Prop
  | text raw => raw.length < 2 ^ 16 ∧ ∃ units, raw = ModifiedUtf8.ofUnits units
  | _ => True

/-- A text with a surrogate in it that has no partner. -/
def IsTorn (entry : Entry) : Prop :=
  ∃ units, entry = .text (ModifiedUtf8.ofUnits units) ∧ ModifiedUtf8.HasUnpaired units

theorem isTorn_iff {units : List UInt16} :
    (text (ModifiedUtf8.ofUnits units)).IsTorn ↔ ModifiedUtf8.HasUnpaired units := by
  constructor
  · rintro ⟨others, hsame, hunpaired⟩
    rw [text.injEq] at hsame
    rw [← ModifiedUtf8.characters?_eq_none_iff, ← ModifiedUtf8.decode?_ofUnits, hsame,
      ModifiedUtf8.decode?_ofUnits, ModifiedUtf8.characters?_eq_none_iff]
    exact hunpaired
  · intro hunpaired
    exact ⟨units, rfl, hunpaired⟩

theorem IsSpelled.fits_iff (h : entry.IsSpelled) : entry.Fits ↔ ¬entry.IsTorn := by
  cases entry with
  | text raw =>
      rcases h with ⟨hlength, units, rfl⟩
      rw [isTorn_iff, ← ModifiedUtf8.characters?_eq_none_iff, ← ModifiedUtf8.decode?_ofUnits]
      exact (and_iff_right hlength).trans Option.isSome_iff_ne_none
  | _ => exact iff_of_true trivial (by rintro ⟨_, ⟨⟩, _⟩)

theorem IsTorn.isBroken (htorn : entry.IsTorn) (h : entry.IsSpelled) : entry.IsBroken := by
  rcases htorn with ⟨units, rfl, hunpaired⟩
  refine ⟨_, rfl, h.1, ?_⟩
  rw [ModifiedUtf8.decode?_ofUnits, ModifiedUtf8.characters?_eq_none_iff]
  exact hunpaired

end Entry

namespace Content

structure IsSpelled (content : Content) : Prop where
  entries : ∀ entry ∈ content.entries, entry.IsSpelled
  indices : widthOf content.entries = content.count.toNat - 1
  others : { content with count := 0, entries := [] }.Fits

variable {content : Content}

theorem IsSpelled.fits (h : content.IsSpelled) (hwhole : ∀ entry ∈ content.entries, ¬entry.IsTorn) :
    content.Fits where
  entries entry hentry := (h.entries entry hentry).fits_iff.mpr (hwhole entry hentry)
  indices := h.indices
  interfaces := h.others.interfaces
  fields := h.others.fields
  methods := h.others.methods
  attributes := h.others.attributes

end Content

theorem widthOf_append (entries more : List Entry) :
    widthOf (entries ++ more) = widthOf entries + widthOf more := by
  rw [widthOf, List.map_append, List.sum_append]
  rfl

theorem text_of_not_hasUnpaired {before after : List Entry} {units : List UInt16}
    (h : ¬ModifiedUtf8.HasUnpaired units) :
    ∃ text, units = ModifiedUtf8.unitsOf text ∧
      (slotsOf (before ++ .text (ModifiedUtf8.ofUnits units) :: after))[widthOf before]? =
        some (.text (String.ofList text)) := by
  rw [← ModifiedUtf8.characters?_eq_none_iff] at h
  rcases Option.ne_none_iff_exists'.mp h with ⟨text, htext⟩
  refine ⟨text, ModifiedUtf8.characters?_eq_some_iff.mp htext, ?_⟩
  rw [(getElem?_pool before after _).1, Entry.constant, ModifiedUtf8.decode?_ofUnits, htext,
    Option.getD_some]

theorem ofBytes_of_torn {version : FormatVersion} {count : UInt16} {before : List Entry}
    {torn : Entry} {rest : Bytes} (hbefore : ∀ entry ∈ before, entry.Fits)
    (hspelled : torn.IsSpelled) (htorn : torn.IsTorn) (hcount : 1 + widthOf before < count.toNat) :
    Layout.ofBytes (Content.front version ++
        (Entry.short count ++ (before.flatMap Entry.bytes ++ (torn.bytes ++ rest)))) =
      .error (.badText (1 + widthOf before)) := by
  apply Decoder.faults_readLayout.runOn_eq_error.mpr
  exact ⟨version, count, _, _, hcount, rfl, rfl, before, torn, rest, hbefore,
    htorn.isBroken hspelled, rfl, rfl⟩

theorem Content.bytes_eq (content : Content) : ∃ rest, content.bytes =
    Content.front content.version ++
      (Entry.short content.count ++ (content.entries.flatMap Entry.bytes ++ rest)) := by
  unfold Content.bytes
  simp only [List.flatten_cons, front, List.append_assoc, List.append_cancel_left_eq, exists_eq']

theorem Content.IsSpelled.ofBytes_eq_error {content : Content} (h : content.IsSpelled)
    {before after : List Entry} {torn : Entry}
    (hentries : content.entries = before ++ torn :: after)
    (hwhole : ∀ entry ∈ before, ¬entry.IsTorn) (htorn : torn.IsTorn) :
    Layout.ofBytes content.bytes = .error (.badText (1 + widthOf before)) := by
  rcases content.bytes_eq with ⟨rest, hbytes⟩
  have hall := h.entries
  rw [hentries, List.forall_mem_append, List.forall_mem_cons] at hall
  have hcount := h.indices
  rw [hentries, widthOf_append, widthOf_cons] at hcount
  have hpos := torn.width_pos
  rw [hbytes, hentries, List.flatMap_append, List.flatMap_cons, List.append_assoc,
    List.append_assoc]
  apply ofBytes_of_torn _ hall.2.1 htorn (by omega)
  intro entry hentry
  exact (hall.1 entry hentry).fits_iff.mpr (hwhole entry hentry)

theorem exists_first_torn {entries : List Entry} (h : ∃ entry ∈ entries, entry.IsTorn) :
    ∃ before torn after, entries = before ++ torn :: after ∧
      (∀ entry ∈ before, ¬entry.IsTorn) ∧ torn.IsTorn := by
  induction entries with
  | nil => simp at h
  | cons first rest ih =>
      by_cases hfirst : first.IsTorn
      · exact ⟨[], first, rest, rfl, nofun, hfirst⟩
      · rcases h with ⟨entry, hmem, htorn⟩
        rcases List.mem_cons.mp hmem with rfl | hmem
        · exact absurd htorn hfirst
        · rcases ih ⟨entry, hmem, htorn⟩ with ⟨before, torn, after, rfl, hwhole, htorn⟩
          exact ⟨first :: before, torn, after, rfl,
            List.forall_mem_cons.mpr ⟨hfirst, hwhole⟩, htorn⟩

/--
A class file whose texts hold code units, whichever these are, is read if and
only if each surrogate in them has its partner. If one has none, the first text
that has such a surrogate in it is refused. No text is refused that holds code
units of which each surrogate has its partner.
-/
theorem ofBytes_eq_ok_iff_not_torn {content : Content} (h : content.IsSpelled) :
    (Layout.ofBytes content.bytes = .ok content.layout ↔
      ∀ entry ∈ content.entries, ¬entry.IsTorn) ∧
    (∀ before units after,
      content.entries = before ++ .text (ModifiedUtf8.ofUnits units) :: after →
      ¬ModifiedUtf8.HasUnpaired units →
        ∃ text, units = ModifiedUtf8.unitsOf text ∧
          content.layout.pool.entries[1 + widthOf before]? = some (.text (String.ofList text))) ∧
    (∀ before torn after, content.entries = before ++ torn :: after →
      (∀ entry ∈ before, ¬entry.IsTorn) → torn.IsTorn →
        Layout.ofBytes content.bytes = .error (.badText (1 + widthOf before))) ∧
    ∀ bytes place, Layout.ofBytes bytes = .error (.badText place) →
      ∃ version count before raw rest,
        bytes = Content.front version ++ (Entry.short count ++
          (before.flatMap Entry.bytes ++ ((Entry.text raw).bytes ++ rest))) ∧
        (∀ entry ∈ before, entry.Fits) ∧ raw.length < 2 ^ 16 ∧ place = 1 + widthOf before ∧
        ∀ units, raw = ModifiedUtf8.ofUnits units → ModifiedUtf8.HasUnpaired units := by
  refine ⟨⟨?_, ?_⟩, ?_, ?_, ?_⟩
  · intro hread entry hentry htorn
    rcases exists_first_torn ⟨entry, hentry, htorn⟩ with
      ⟨before, torn, after, hentries, hwhole, hfirst⟩
    rw [h.ofBytes_eq_error hentries hwhole hfirst] at hread
    cases hread
  · intro hwhole
    exact ofBytes_eq_ok_iff.mpr ⟨content, h.fits hwhole, rfl, rfl⟩
  · intro before units after hentries hpaired
    rcases text_of_not_hasUnpaired hpaired with ⟨text, hunits, hslot⟩
    refine ⟨text, hunits, ?_⟩
    rw [← hslot, ← hentries, Nat.add_comm 1]
    simp [Content.layout]
  · intro before torn after hentries hwhole htorn
    exact h.ofBytes_eq_error hentries hwhole htorn
  · intro bytes place hfault
    rcases Decoder.faults_readLayout.runOn_eq_error.mp hfault with
      ⟨version, count, _, _, _, rfl, rfl, before, _, rest, hbefore, ⟨raw, rfl, hlength, hdecode⟩,
        rfl, rfl⟩
    refine ⟨version, count, before, raw, rest, rfl, hbefore, hlength, rfl, ?_⟩
    rintro units rfl
    rw [ModifiedUtf8.decode?_ofUnits] at hdecode
    exact ModifiedUtf8.characters?_eq_none_iff.mp hdecode

def Content.withLiteral (units : List UInt16) : Content where
  version := ⟨52, 0⟩
  count := 7
  entries := [.classEntry 2, .text (ModifiedUtf8.encode "X".toList), .classEntry 4,
    .text (ModifiedUtf8.encode "java/lang/Object".toList), .string 6,
    .text (ModifiedUtf8.ofUnits units)]
  flags := ⟨0x21⟩
  thisClass := 1
  superClass := 3
  interfaces := []
  fields := []
  methods := []
  attributes := []

theorem Content.isSpelled_withLiteral {units : List UInt16}
    (h : (ModifiedUtf8.ofUnits units).length < 2 ^ 16) : (withLiteral units).IsSpelled where
  entries := by
    simp only [withLiteral, List.forall_mem_cons]
    exact ⟨trivial, ⟨by decide +kernel, _, rfl⟩, trivial, ⟨by decide +kernel, _, rfl⟩, trivial,
      ⟨h, _, rfl⟩, nofun⟩
  indices := rfl
  others :=
    have hsmall : 0 < 2 ^ 16 := Nat.two_pow_pos 16
    ⟨nofun, rfl, hsmall, ⟨hsmall, nofun⟩, ⟨hsmall, nofun⟩, ⟨hsmall, nofun⟩⟩

theorem ofBytes_of_halved_pair :
    (Content.withLiteral [0xD83D, 0xDE00]).IsSpelled ∧
      Layout.ofBytes (Content.withLiteral [0xD83D, 0xDE00]).bytes =
        .ok (Content.withLiteral [0xD83D, 0xDE00]).layout ∧
      (∃ text, [0xD83D, 0xDE00] = ModifiedUtf8.unitsOf text ∧
        (Content.withLiteral [0xD83D, 0xDE00]).layout.pool.entries[6]? =
          some (.text (String.ofList text))) ∧
      (Content.withLiteral [0xD83D]).IsSpelled ∧
      Layout.ofBytes (Content.withLiteral [0xD83D]).bytes = .error (.badText 6) ∧
      ∃ version count before raw rest,
        (Content.withLiteral [0xD83D]).bytes = Content.front version ++ (Entry.short count ++
          (before.flatMap Entry.bytes ++ ((Entry.text raw).bytes ++ rest))) ∧
        6 = 1 + widthOf before ∧
        ∀ units, raw = ModifiedUtf8.ofUnits units → ModifiedUtf8.HasUnpaired units := by
  have hpair : (Content.withLiteral [0xD83D, 0xDE00]).IsSpelled :=
    Content.isSpelled_withLiteral (by decide)
  have hhalf : (Content.withLiteral [0xD83D]).IsSpelled :=
    Content.isSpelled_withLiteral (by decide)
  have hwhole : ∀ entry ∈ (Content.withLiteral [0xD83D, 0xDE00]).entries, ¬entry.IsTorn := by
    have hfits : ∀ entry ∈ (Content.withLiteral [0xD83D, 0xDE00]).entries, entry.Fits := by
      decide +kernel
    exact fun entry hentry => (hpair.entries entry hentry).fits_iff.mp (hfits entry hentry)
  have hpaired : ¬ModifiedUtf8.HasUnpaired [0xD83D, 0xDE00] :=
    fun hunpaired => hwhole _ (List.mem_append_right ((Content.withLiteral []).entries.take 5)
      (List.mem_singleton.mpr rfl)) (Entry.isTorn_iff.mpr hunpaired)
  rcases ofBytes_eq_ok_iff_not_torn hpair with ⟨hread, htext, _, _⟩
  rcases ofBytes_eq_ok_iff_not_torn hhalf with ⟨_, _, hrefuse, hfault⟩
  have hrefused := hrefuse ((Content.withLiteral []).entries.take 5)
    (.text (ModifiedUtf8.ofUnits [0xD83D])) [] rfl
    (fun entry hentry => hwhole entry (List.mem_append_left [_] hentry))
    (Entry.isTorn_iff.mpr ⟨[], 0xD83D, [], rfl, Or.inl ⟨by decide, nofun⟩⟩)
  rcases hfault _ _ hrefused with
    ⟨version, count, before, raw, rest, hbytes, _, _, hplace, hunpaired⟩
  exact ⟨hpair, hread.mpr hwhole,
    htext ((Content.withLiteral []).entries.take 5) _ [] rfl hpaired, hhalf, hrefused,
    version, count, before, raw, rest, hbytes, hplace, hunpaired⟩

/--
Whichever code units a literal holds, a class with that literal may be written.
Half a pair is refused all the same, and said not to be written as it is.
-/
theorem surfaceOf_of_lone_surrogate :
    (Content.withLiteral [0xD800]).IsSpelled ∧
      surfaceOf (Content.withLiteral [0xD800]).bytes = .error (.badText 6) ∧
      (Fault.badText 6).message = "constant pool entry 6 is not valid modified UTF-8" ∧
      (surfaceOf (Content.withLiteral [0xD800, 0xDC00]).bytes).toBool = true := by
  refine ⟨Content.isSpelled_withLiteral (by decide), ?_, ?_, ?_⟩
  · decide +kernel
  · decide +kernel
  · decide +kernel

end ClassFile
end Recompile
