import Recompile.ClassFile.Pool
import Recompile.Proofs.ClassFile.Reading

/-!
# The entries of a pool as they are written

An entry is a tag and what belongs to the tag. Reading keeps of it what the
surface of a class needs, in one slot or two. A pool is read exactly where
entries come next that fill the slots it announces.
-/

namespace Recompile
namespace ClassFile

inductive Entry where
  | text (raw : Bytes)
  | integer (value : Int32)
  | float (bits : UInt32)
  | long (value : Int64)
  | double (bits : UInt64)
  | classEntry (name : UInt16)
  | string (text : UInt16)
  | field (owner nameAndType : UInt16)
  | method (owner nameAndType : UInt16)
  | interfaceMethod (owner nameAndType : UInt16)
  | nameAndType (name descriptor : UInt16)
  | methodHandle (kind : UInt8) (reference : UInt16)
  | methodType (descriptor : UInt16)
  | dynamic (bootstrap nameAndType : UInt16)
  | invokeDynamic (bootstrap nameAndType : UInt16)
  | moduleEntry (name : UInt16)
  | packageEntry (name : UInt16)
deriving DecidableEq

namespace Entry

def tag : Entry → Nat
  | text _ => 1
  | integer _ => 3
  | float _ => 4
  | long _ => 5
  | double _ => 6
  | classEntry _ => 7
  | string _ => 8
  | field _ _ => 9
  | method _ _ => 10
  | interfaceMethod _ _ => 11
  | nameAndType _ _ => 12
  | methodHandle _ _ => 15
  | methodType _ => 16
  | dynamic _ _ => 17
  | invokeDynamic _ _ => 18
  | moduleEntry _ => 19
  | packageEntry _ => 20

def short (value : UInt16) : Bytes :=
  Bytes.ofNat 2 value.toNat

def payload : Entry → Bytes
  | text raw => Bytes.ofNat 2 raw.length ++ raw
  | integer value => Bytes.ofNat 4 value.toUInt32.toNat
  | float bits => Bytes.ofNat 4 bits.toNat
  | long value => Bytes.ofNat 8 value.toUInt64.toNat
  | double bits => Bytes.ofNat 8 bits.toNat
  | classEntry name => short name
  | string value => short value
  | field owner member => short owner ++ short member
  | method owner member => short owner ++ short member
  | interfaceMethod owner member => short owner ++ short member
  | nameAndType name descriptor => short name ++ short descriptor
  | methodHandle kind reference => kind :: short reference
  | methodType descriptor => short descriptor
  | dynamic bootstrap member => short bootstrap ++ short member
  | invokeDynamic bootstrap member => short bootstrap ++ short member
  | moduleEntry name => short name
  | packageEntry name => short name

def bytes (entry : Entry) : Bytes :=
  UInt8.ofNat entry.tag :: entry.payload

def width : Entry → Nat
  | long _ => 2
  | double _ => 2
  | _ => 1

/-- A text has two bytes for its length, and is one that can be decoded. -/
def Fits : Entry → Prop
  | text raw => raw.length < 2 ^ 16 ∧ (ModifiedUtf8.decode? raw).isSome
  | _ => True

instance : DecidablePred Fits
  | text _ => inferInstanceAs (Decidable (_ ∧ _))
  | integer _ | float _ | long _ | double _ | classEntry _ | string _ | field _ _ | method _ _
  | interfaceMethod _ _ | nameAndType _ _ | methodHandle _ _ | methodType _ | dynamic _ _
  | invokeDynamic _ _ | moduleEntry _ | packageEntry _ => isTrue trivial

def constant : Entry → Constant
  | text raw => .text (String.ofList ((ModifiedUtf8.decode? raw).getD []))
  | integer value => .integer value
  | float bits => .float bits
  | long value => .long value
  | double bits => .double bits
  | classEntry name => .classEntry name
  | string value => .string value
  | field _ _ => .memberReference
  | method _ _ => .memberReference
  | interfaceMethod _ _ => .memberReference
  | nameAndType _ descriptor => .nameAndType descriptor
  | methodHandle _ _ => .methodHandle
  | methodType descriptor => .methodType descriptor
  | dynamic _ _ => .dynamic
  | invokeDynamic _ _ => .dynamic
  | moduleEntry _ => .moduleEntry
  | packageEntry _ => .packageEntry

theorem width_pos (entry : Entry) : 0 < entry.width := by
  cases entry <;> exact Nat.succ_pos _

end Entry

def Constant.slots (constant : Constant) : List Constant :=
  if constant.isWide then [constant, .unusable] else [constant]

theorem Entry.length_slots (entry : Entry) : entry.constant.slots.length = entry.width := by
  cases entry <;> rfl

theorem Entry.head?_slots (entry : Entry) (more : List Constant) :
    (entry.constant.slots ++ more).head? = some entry.constant := by
  cases entry <;> rfl

def widthOf (entries : List Entry) : Nat :=
  (entries.map Entry.width).sum

theorem widthOf_cons (entry : Entry) (entries : List Entry) :
    widthOf (entry :: entries) = entry.width + widthOf entries :=
  List.sum_cons

theorem eq_nil_of_widthOf {entries : List Entry} (h : widthOf entries = 0) : entries = [] := by
  cases entries with
  | nil => rfl
  | cons entry entries =>
      have hpos := entry.width_pos
      rw [widthOf_cons] at h
      omega

def slotsOf (entries : List Entry) : List Constant :=
  entries.flatMap fun entry => entry.constant.slots

theorem length_slotsOf (entries : List Entry) : (slotsOf entries).length = widthOf entries := by
  induction entries with
  | nil => rfl
  | cons entry entries ih =>
      rw [slotsOf, List.flatMap_cons, List.length_append, entry.length_slots, widthOf_cons, ← ih]
      rfl

theorem slotsOf_eq_nil_iff {entries : List Entry} : slotsOf entries = [] ↔ entries = [] := by
  rw [← List.length_eq_zero_iff, length_slotsOf]
  constructor
  · exact eq_nil_of_widthOf
  · rintro rfl
    rfl

/-!
# Reading an entry
-/

namespace Decoder

theorem length_eq_two_iff {written : Bytes} :
    written.length = 2 ↔ ∃ value, written = Entry.short value := by
  constructor
  · intro h
    have hlt := Bytes.toNat_lt written
    rw [h] at hlt
    refine ⟨UInt16.ofNat written.toNat, ?_⟩
    rw [Entry.short, UInt16.toNat_ofNat_of_lt' hlt, ← h, Bytes.ofNat_toNat]
  · rintro ⟨value, rfl⟩
    rfl

theorem length_eq_four_iff {written : Bytes} :
    written.length = 4 ↔
      ∃ values : UInt16 × UInt16, written = Entry.short values.1 ++ Entry.short values.2 := by
  constructor
  · intro h
    have htake : (written.take 2).length = 2 := by rw [List.length_take, h]; rfl
    have hdrop : (written.drop 2).length = 2 := by rw [List.length_drop, h]
    rcases length_eq_two_iff.mp htake with ⟨first, hfirst⟩
    rcases length_eq_two_iff.mp hdrop with ⟨second, hsecond⟩
    refine ⟨(first, second), ?_⟩
    rw [← hfirst, ← hsecond, List.take_append_drop]
  · rintro ⟨values, rfl⟩
    rfl

theorem length_eq_three_iff {written : Bytes} :
    written.length = 3 ↔
      ∃ values : UInt8 × UInt16, written = values.1 :: Entry.short values.2 := by
  constructor
  · intro h
    cases written with
    | nil => cases h
    | cons first rest =>
        rcases length_eq_two_iff.mp (Nat.succ.inj h) with ⟨second, rfl⟩
        exact ⟨(first, second), rfl⟩
  · rintro ⟨values, rfl⟩
    rfl

theorem reads_readText (index : Nat) :
    Reads (readText index) fun written constant =>
      ∃ raw, (Entry.text raw).Fits ∧ written = (Entry.text raw).payload ∧
        constant = (Entry.text raw).constant := by
  apply (reads_u2.bind _ fun length => (reads_take length.toNat).bind
    (fun raw written constant => written = [] ∧ (ModifiedUtf8.decode? raw).isSome ∧
      constant = (Entry.text raw).constant) fun raw => ?decoded).congr
  case decoded =>
    cases hdecode : ModifiedUtf8.decode? raw with
    | none =>
        apply (reads_throw _).congr
        simp
    | some value =>
        apply (reads_pure _).congr
        simp [Entry.constant, hdecode]
  intro written constant
  constructor
  · rintro ⟨length, _, _, rfl, ⟨_, raw, _, ⟨rfl, hlength⟩, ⟨rfl, hdecode, rfl⟩, rfl⟩, rfl⟩
    have hfits := length.toNat_lt
    rw [← hlength] at hfits
    exact ⟨_, ⟨hfits, hdecode⟩, by rw [Entry.payload, hlength, List.append_nil], rfl⟩
  · rintro ⟨raw, ⟨hlength, hdecode⟩, rfl, rfl⟩
    have hnumber := UInt16.toNat_ofNat_of_lt' hlength
    refine ⟨UInt16.ofNat raw.length, _, raw, rfl,
      ⟨raw, raw, [], ⟨rfl, hnumber.symm⟩, ⟨rfl, hdecode, rfl⟩, (List.append_nil _).symm⟩, ?_⟩
    rw [Entry.payload, hnumber]

/-- Whether a reader gives what is kept of the entries of a tag where one comes next behind it. -/
def ReadsEntries (read : Decoder Constant) (tag : Nat) : Prop :=
  Reads read fun written constant =>
    ∃ entry : Entry, entry.tag = tag ∧ entry.Fits ∧ written = entry.payload ∧
      constant = entry.constant

variable {α : Type} {reader : Decoder α} {write : α → Bytes} {tag : Nat}

theorem Reads.entries {read : Decoder Constant} (make : α → Entry)
    (h : Reads read fun written constant =>
      ∃ value, written = (make value).payload ∧ constant = (make value).constant)
    (hmade : ∀ value, (make value).tag = tag ∧ (make value).Fits)
    (hall : ∀ entry : Entry, entry.tag = tag → entry.Fits → ∃ value, entry = make value) :
    ReadsEntries read tag := by
  apply h.congr
  intro written constant
  constructor
  · rintro ⟨value, rfl, rfl⟩
    exact ⟨make value, (hmade value).1, (hmade value).2, rfl, rfl⟩
  · rintro ⟨entry, htag, hfits, rfl, rfl⟩
    rcases hall entry htag hfits with ⟨value, rfl⟩
    exact ⟨value, rfl, rfl⟩

theorem readsEntries_kept (make : α → Entry)
    (h : Reads reader fun written value => written = (make value).payload)
    (hmade : ∀ value, (make value).tag = tag ∧ (make value).Fits)
    (hall : ∀ entry : Entry, entry.tag = tag → entry.Fits → ∃ value, entry = make value) :
    ReadsEntries (do return (make (← reader)).constant) tag :=
  (h.map fun value => (make value).constant).entries make hmade hall

theorem readsEntries_skipped {width : Nat} {constant : Constant} (make : α → Entry)
    (hwritten : ∀ {written : Bytes}, written.length = width ↔
      ∃ value, written = (make value).payload)
    (hmade : ∀ value, (make value).tag = tag ∧ (make value).Fits ∧
      (make value).constant = constant)
    (hall : ∀ entry : Entry, entry.tag = tag → entry.Fits → ∃ value, entry = make value) :
    ReadsEntries (do let _ ← take width; return constant) tag := by
  have hread : Reads (do let _ ← take width; return constant) fun written found =>
      ∃ value, written = (make value).payload ∧ found = (make value).constant := by
    apply ((reads_take width).skip constant).congr
    intro written found
    constructor
    · rintro ⟨⟨_, rfl, hlength⟩, rfl⟩
      rcases hwritten.mp hlength with ⟨value, hvalue⟩
      exact ⟨value, hvalue, (hmade value).2.2.symm⟩
    · rintro ⟨value, rfl, rfl⟩
      exact ⟨⟨_, rfl, hwritten.mpr ⟨value, rfl⟩⟩, (hmade value).2.2⟩
  exact hread.entries make (fun value => ⟨(hmade value).1, (hmade value).2.1⟩) hall

theorem readsEntries_pair {constant : Constant} (make : UInt16 → UInt16 → Entry)
    (hmade : ∀ first second, (make first second).payload = Entry.short first ++ Entry.short second ∧
      (make first second).tag = tag ∧ (make first second).Fits ∧
      (make first second).constant = constant)
    (hall : ∀ entry : Entry, entry.tag = tag → ∃ first second, entry = make first second) :
    ReadsEntries (do let _ ← take 4; return constant) tag := by
  apply readsEntries_skipped fun values : UInt16 × UInt16 => make values.1 values.2
  · intro written
    simp only [length_eq_four_iff, (hmade _ _).1]
  · exact fun values => (hmade values.1 values.2).2
  · intro entry htag _
    rcases hall entry htag with ⟨first, second, rfl⟩
    exact ⟨(first, second), rfl⟩

theorem readsEntries_readText (index : Nat) : ReadsEntries (readText index) 1 := by
  apply (reads_readText index).congr
  intro written constant
  constructor
  · rintro ⟨raw, hfits, rfl, rfl⟩
    exact ⟨.text raw, rfl, hfits, rfl, rfl⟩
  · rintro ⟨entry, htag, hfits, rfl, rfl⟩
    cases entry <;> cases htag
    exact ⟨_, hfits, rfl, rfl⟩

theorem readsEntries_nameAndType :
    ReadsEntries (do let _ ← u2; return .nameAndType (← u2)) 12 := by
  apply (reads_u2.bind _ fun _ => reads_u2.map Constant.nameAndType).congr
  intro written constant
  constructor
  · rintro ⟨name, _, _, rfl, ⟨descriptor, rfl, rfl⟩, rfl⟩
    exact ⟨.nameAndType name descriptor, rfl, trivial, rfl, rfl⟩
  · rintro ⟨entry, htag, _, rfl, rfl⟩
    cases entry <;> cases htag
    exact ⟨_, _, _, rfl, ⟨_, rfl, rfl⟩, rfl⟩

theorem readsEntries_throw (fault : Fault) (h : ∀ entry : Entry, entry.tag ≠ tag) :
    ReadsEntries (throw fault) tag := by
  apply (reads_throw fault).congr
  intro written constant
  constructor
  · exact False.elim
  · rintro ⟨entry, htag, _⟩
    exact h entry htag

theorem reads_readConstant (index : Nat) :
    Reads (readConstant index) fun written constant =>
      ∃ entry : Entry, entry.Fits ∧ written = entry.bytes ∧ constant = entry.constant := by
  apply (reads_u1.bind (fun byte written constant =>
    ∃ entry : Entry, entry.tag = byte.toNat ∧ entry.Fits ∧ written = entry.payload ∧
      constant = entry.constant) ?_).congr
  · intro written constant
    constructor
    · rintro ⟨byte, _, _, rfl, ⟨entry, htag, hfits, rfl, rfl⟩, rfl⟩
      exact ⟨entry, hfits, by rw [Entry.bytes, htag, UInt8.ofNat_toNat]; rfl, rfl⟩
    · rintro ⟨entry, hfits, rfl, rfl⟩
      have htag : entry.tag = (UInt8.ofNat entry.tag).toNat := by
        cases entry <;> rfl
      exact ⟨_, _, _, rfl, ⟨entry, htag, hfits, rfl, rfl⟩, rfl⟩
  · intro byte
    show ReadsEntries _ byte.toNat
    generalize byte.toNat = tag
    split
    case h_1 => exact readsEntries_readText index
    case h_2 =>
      apply readsEntries_kept (fun value : UInt32 => .integer value.toInt32) reads_u4
        (fun _ => ⟨rfl, trivial⟩)
      intro entry htag _
      cases entry <;> cases htag
      exact ⟨_, rfl⟩
    case h_3 =>
      apply readsEntries_kept .float reads_u4 (fun _ => ⟨rfl, trivial⟩)
      intro entry htag _
      cases entry <;> cases htag
      exact ⟨_, rfl⟩
    case h_4 =>
      apply readsEntries_kept (fun value : UInt64 => .long value.toInt64) reads_u8
        (fun _ => ⟨rfl, trivial⟩)
      intro entry htag _
      cases entry <;> cases htag
      exact ⟨_, rfl⟩
    case h_5 =>
      apply readsEntries_kept .double reads_u8 (fun _ => ⟨rfl, trivial⟩)
      intro entry htag _
      cases entry <;> cases htag
      exact ⟨_, rfl⟩
    case h_6 =>
      apply readsEntries_kept .classEntry reads_u2 (fun _ => ⟨rfl, trivial⟩)
      intro entry htag _
      cases entry <;> cases htag
      exact ⟨_, rfl⟩
    case h_7 =>
      apply readsEntries_kept .string reads_u2 (fun _ => ⟨rfl, trivial⟩)
      intro entry htag _
      cases entry <;> cases htag
      exact ⟨_, rfl⟩
    case h_8 =>
      apply readsEntries_pair .field (fun _ _ => ⟨rfl, rfl, trivial, rfl⟩)
      intro entry htag
      cases entry <;> cases htag
      exact ⟨_, _, rfl⟩
    case h_9 =>
      apply readsEntries_pair .method (fun _ _ => ⟨rfl, rfl, trivial, rfl⟩)
      intro entry htag
      cases entry <;> cases htag
      exact ⟨_, _, rfl⟩
    case h_10 =>
      apply readsEntries_pair .interfaceMethod (fun _ _ => ⟨rfl, rfl, trivial, rfl⟩)
      intro entry htag
      cases entry <;> cases htag
      exact ⟨_, _, rfl⟩
    case h_11 => exact readsEntries_nameAndType
    case h_12 =>
      apply readsEntries_skipped (fun values : UInt8 × UInt16 => .methodHandle values.1 values.2)
        length_eq_three_iff (fun _ => ⟨rfl, trivial, rfl⟩)
      intro entry htag _
      cases entry <;> cases htag
      exact ⟨(_, _), rfl⟩
    case h_13 =>
      apply readsEntries_kept .methodType reads_u2 (fun _ => ⟨rfl, trivial⟩)
      intro entry htag _
      cases entry <;> cases htag
      exact ⟨_, rfl⟩
    case h_14 =>
      apply readsEntries_pair .dynamic (fun _ _ => ⟨rfl, rfl, trivial, rfl⟩)
      intro entry htag
      cases entry <;> cases htag
      exact ⟨_, _, rfl⟩
    case h_15 =>
      apply readsEntries_pair .invokeDynamic (fun _ _ => ⟨rfl, rfl, trivial, rfl⟩)
      intro entry htag
      cases entry <;> cases htag
      exact ⟨_, _, rfl⟩
    case h_16 =>
      apply readsEntries_skipped .moduleEntry length_eq_two_iff (fun _ => ⟨rfl, trivial, rfl⟩)
      intro entry htag _
      cases entry <;> cases htag
      exact ⟨_, rfl⟩
    case h_17 =>
      apply readsEntries_skipped .packageEntry length_eq_two_iff (fun _ => ⟨rfl, trivial, rfl⟩)
      intro entry htag _
      cases entry <;> cases htag
      exact ⟨_, rfl⟩
    case h_18 =>
      apply readsEntries_throw
      rintro entry rfl
      cases entry <;> contradiction

theorem reads_readSlots (left index : Nat) (filled : Array Constant) :
    Reads (readSlots left index filled) fun written all =>
      ∃ entries : List Entry, (∀ entry ∈ entries, entry.Fits) ∧ widthOf entries = left ∧
        written = entries.flatMap Entry.bytes ∧ all = filled ++ (slotsOf entries).toArray := by
  induction left using Nat.strongRecOn generalizing index filled with
  | ind left ih =>
  cases left with
  | zero =>
      apply (reads_pure filled).congr
      intro written all
      constructor
      · rintro ⟨rfl, rfl⟩
        exact ⟨[], nofun, rfl, rfl, by simp [slotsOf]⟩
      · rintro ⟨entries, _, hwidth, rfl, rfl⟩
        rw [eq_nil_of_widthOf hwidth]
        simp [slotsOf]
  | succ left =>
      rw [readSlots]
      apply ((reads_readConstant index).bind (fun constant written all =>
        ∃ entries : List Entry, (∀ entry ∈ entries, entry.Fits) ∧
          constant.slots.length + widthOf entries = left + 1 ∧
          written = entries.flatMap Entry.bytes ∧
          all = filled ++ (constant.slots ++ slotsOf entries).toArray) ?_).congr
      · intro written all
        constructor
        · rintro ⟨_, _, _, ⟨entry, hentry, rfl, rfl⟩, ⟨entries, hentries, hwidth, rfl, rfl⟩, rfl⟩
          rw [entry.length_slots] at hwidth
          exact ⟨entry :: entries, List.forall_mem_cons.mpr ⟨hentry, hentries⟩, hwidth, rfl, rfl⟩
        · rintro ⟨entries, hentries, hwidth, rfl, rfl⟩
          cases entries with
          | nil => cases hwidth
          | cons entry entries =>
              rcases List.forall_mem_cons.mp hentries with ⟨hentry, hentries⟩
              rw [widthOf_cons, ← entry.length_slots] at hwidth
              exact ⟨_, _, _, ⟨entry, hentry, rfl, rfl⟩, ⟨entries, hentries, hwidth, rfl, rfl⟩, rfl⟩
      · intro constant
        unfold Constant.slots
        cases hwide : constant.isWide with
        | false =>
            apply (ih left (Nat.lt_succ_self left) (index + 1) (filled.push constant)).congr
            intro written all
            simp [Nat.add_comm 1]
        | true =>
            cases left with
            | zero =>
                apply (reads_throw _).congr
                intro written all
                constructor
                · exact False.elim
                · rintro ⟨entries, _, hwidth, _⟩
                  have htwo : 2 + widthOf entries = 1 := hwidth
                  omega
            | succ left =>
                apply (ih left (by omega) (index + 2) ((filled.push constant).push .unusable)).congr
                intro written all
                simp [Nat.add_comm 2]

theorem reads_readPool :
    Reads readPool fun written pool =>
      ∃ (count : UInt16) (entries : List Entry), (∀ entry ∈ entries, entry.Fits) ∧
        widthOf entries = count.toNat - 1 ∧
        written = Entry.short count ++ entries.flatMap Entry.bytes ∧
        pool = ⟨#[.unusable] ++ (slotsOf entries).toArray⟩ := by
  apply (reads_u2.bind _ fun count =>
    (reads_readSlots (count.toNat - 1) 1 #[.unusable]).map Pool.mk).congr
  intro written pool
  constructor
  · rintro ⟨count, _, _, rfl, ⟨_, ⟨entries, hentries, hwidth, rfl, rfl⟩, rfl⟩, rfl⟩
    exact ⟨count, entries, hentries, hwidth, rfl, rfl⟩
  · rintro ⟨count, entries, hentries, hwidth, rfl, rfl⟩
    exact ⟨count, _, _, rfl, ⟨_, ⟨entries, hentries, hwidth, rfl, rfl⟩, rfl⟩, rfl⟩

end Decoder
end ClassFile
end Recompile
