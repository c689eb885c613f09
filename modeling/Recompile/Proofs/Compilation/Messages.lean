import Mathlib.Data.List.TakeWhile
import Recompile.Proofs.Compilation.Log
import Recompile.Proofs.Text.Pieces

/-!
# The messages of a log are passages of it

The grouping goes through a log once and remembers only which message is open.
Here its result is read off the log as a whole: a message is the passage from the
header of an error up to the next line that is something else than more of it.
Lines that begin with a bracket are the compiler's own reports, and this is asked
before anything else, so a source whose path begins so draws no messages.
-/

namespace Recompile
namespace CompilerLog

variable {sources : List (Line × String)} {source : String} {line path kind : Line}

/-!
# What a line is

The kinds of lines are given by how a line is made up.
-/

/-- Whether a line is `path:digits:` and then the kind of a message. -/
def IsHeader (path line kind : Line) : Prop :=
  ∃ number, line = path ++ ':' :: (number ++ ':' :: kind) ∧ number ≠ [] ∧
    ∀ c ∈ number, Text.isDigit c = true

def IsError (kind : Line) : Prop :=
  ∃ blanks rest, kind = blanks ++ "error:".toList ++ rest ∧ ∀ c ∈ blanks, Text.isBlank c = true

def Opens (sources : List (Line × String)) (line : Line) (source : String) : Prop :=
  ∃ front path back kind, sources = front ++ (path, source) :: back ∧
    IsHeader path line kind ∧ IsError kind ∧ ∀ entry ∈ front, ∀ other, ¬IsHeader entry.1 line other

/-- Whether a line cannot go on with a message. -/
inductive Interrupts (sources : List (Line × String)) (line : Line) : Prop where
  | blank (h : ∀ c ∈ line, Text.isBlank c = true)
  | report (h : line.head? = some '[')
  | summary (h : isTally line = true)
  | header (path : Line) (source : String) (hsource : (path, source) ∈ sources) (kind : Line)
      (h : IsHeader path line kind)

theorem trim_eq_nil_iff {text : Line} :
    Text.trim text = [] ↔ ∀ c ∈ text, Text.isBlank c = true := by
  unfold Text.trim Text.trimEnd Text.trimStart
  rw [List.reverse_eq_nil_iff, List.dropWhile_eq_nil_iff]
  simp only [List.mem_reverse]
  constructor
  · intro h c hc
    rw [← List.takeWhile_append_dropWhile (p := Text.isBlank) (l := text), List.mem_append] at hc
    rcases hc with hc | hc
    · exact List.mem_takeWhile_imp hc
    · exact h c hc
  · intro h c hc
    exact h c ((List.dropWhile_sublist _).mem hc)

theorem isError_iff :
    (Text.after? "error:".toList (Text.trimStart kind)).isSome = true ↔ IsError kind := by
  rw [Option.isSome_iff_exists]
  simp only [Text.after?_eq_some_iff]
  constructor
  · rintro ⟨rest, hrest⟩
    refine ⟨kind.takeWhile Text.isBlank, rest, ?_, fun c hc => List.mem_takeWhile_imp hc⟩
    rw [List.append_assoc, ← hrest]
    exact (List.takeWhile_append_dropWhile).symm
  · rintro ⟨blanks, rest, rfl, hblanks⟩
    refine ⟨rest, ?_⟩
    unfold Text.trimStart
    rw [List.append_assoc, List.dropWhile_append_of_pos hblanks]
    rfl

theorem bind_after?_eq_some_iff {rest : Line} :
    (Text.after? path line).bind (Text.after? [':']) = some rest ↔ line = path ++ ':' :: rest := by
  rw [Option.bind_eq_some_iff]
  simp only [Text.after?_eq_some_iff]
  constructor
  · rintro ⟨_, rfl, rfl⟩
    rfl
  · rintro rfl
    exact ⟨_, rfl, rfl⟩

theorem isHeader_of_headerFor? {isError : Bool} (h : headerFor? path line = some isError) :
    ∃ kind, IsHeader path line kind := by
  unfold headerFor? at h
  cases hafter : (Text.after? path line).bind (Text.after? [':']) with
  | none => simp [hafter] at h
  | some rest =>
      cases hsplit : Text.splitFirst? ':' rest with
      | none => simp [hafter, hsplit] at h
      | some pair =>
          rcases pair with ⟨number, kind⟩
          simp only [hafter, hsplit] at h
          split at h
          · cases h
          · next hnumber =>
              rw [not_or, Bool.not_eq_true, Bool.not_eq_false', List.all_eq_true] at hnumber
              rw [bind_after?_eq_some_iff, (Text.splitFirst?_eq_some_iff.mp hsplit).1] at hafter
              exact ⟨kind, number, hafter, hnumber⟩

theorem IsHeader.headerFor?_eq (h : IsHeader path line kind) :
    headerFor? path line = some (Text.after? "error:".toList (Text.trimStart kind)).isSome := by
  rcases h with ⟨number, hline, hne, hdigits⟩
  -- A number has no colon in it, so the first colon behind the path is that behind the number.
  have hcolon : ':' ∉ number := fun hmem => absurd (hdigits ':' hmem) (by decide)
  unfold headerFor?
  rw [bind_after?_eq_some_iff.mpr hline]
  simp only [Text.splitFirst?_eq_some_iff.mpr ⟨rfl, hcolon⟩]
  rw [if_neg]
  rw [not_or, Bool.not_eq_true, Bool.not_eq_false', List.all_eq_true]
  exact ⟨hne, hdigits⟩

theorem headerFor?_eq_none_iff :
    headerFor? path line = none ↔ ∀ kind, ¬IsHeader path line kind := by
  constructor
  · intro h kind hheader
    rw [hheader.headerFor?_eq] at h
    cases h
  · intro h
    cases hheader : headerFor? path line with
    | none => rfl
    | some isError =>
        rcases isHeader_of_headerFor? hheader with ⟨kind, hkind⟩
        exact absurd hkind (h kind)

theorem headerFor?_eq_some_true_iff :
    headerFor? path line = some true ↔ ∃ kind, IsHeader path line kind ∧ IsError kind := by
  constructor
  · intro h
    rcases isHeader_of_headerFor? h with ⟨kind, hkind⟩
    rw [hkind.headerFor?_eq, Option.some.injEq, isError_iff] at h
    exact ⟨kind, hkind, h⟩
  · rintro ⟨kind, hkind, herror⟩
    rw [hkind.headerFor?_eq, isError_iff.mpr herror]

theorem header?_eq_none_iff :
    header? sources line = none ↔
      ∀ path source, (path, source) ∈ sources → ∀ kind, ¬IsHeader path line kind := by
  unfold header?
  rw [List.findSome?_eq_none_iff]
  simp only [Option.map_eq_none_iff, headerFor?_eq_none_iff, Prod.forall]

theorem header?_eq_some_true_iff :
    header? sources line = some (source, true) ↔ Opens sources line source := by
  unfold header? Opens
  rw [List.findSome?_eq_some_iff]
  constructor
  · rintro ⟨front, ⟨path, asked⟩, back, hsources, hheader, hfront⟩
    rcases Option.map_eq_some_iff.mp hheader with ⟨isError, hkind, hpair⟩
    cases hpair
    rcases headerFor?_eq_some_true_iff.mp hkind with ⟨kind, hkind, herror⟩
    refine ⟨front, path, back, kind, hsources, hkind, herror, fun entry hentry => ?_⟩
    exact headerFor?_eq_none_iff.mp (Option.map_eq_none_iff.mp (hfront entry hentry))
  · rintro ⟨front, path, back, kind, hsources, hkind, herror, hfront⟩
    refine ⟨front, (path, source), back, hsources, ?_, fun entry hentry => ?_⟩
    · have hfor := headerFor?_eq_some_true_iff.mpr ⟨kind, hkind, herror⟩
      exact Option.map_eq_some_iff.mpr ⟨true, hfor, rfl⟩
    · exact Option.map_eq_none_iff.mpr (headerFor?_eq_none_iff.mpr (hfront entry hentry))

theorem lineKind_eq_other_iff : lineKind sources line = .other ↔ ¬Interrupts sources line := by
  unfold lineKind
  split
  · next hdivider =>
      rw [trim_eq_nil_iff] at hdivider
      refine iff_of_false LineKind.noConfusion (not_not_intro ?_)
      rcases hdivider with h | h
      · exact .report h
      · exact .blank h
  · next hdivider =>
      rw [not_or, trim_eq_nil_iff] at hdivider
      cases hheader : header? sources line with
      | some pair =>
          refine iff_of_false LineKind.noConfusion (not_not_intro ?_)
          by_contra hno
          have hnone : header? sources line = none := header?_eq_none_iff.mpr
            fun path source hsource kind h => hno (.header path source hsource kind h)
          rw [hnone] at hheader
          cases hheader
      | none =>
          show (if isTally line = true then LineKind.summary else LineKind.other) = _ ↔ _
          split
          · next h => exact iff_of_false LineKind.noConfusion (not_not_intro (.summary h))
          · next hsummary =>
              refine iff_of_true rfl fun h => ?_
              cases h with
              | blank h => exact hdivider.2 h
              | report h => exact hdivider.1 h
              | summary h => exact hsummary h
              | header path source hsource kind h =>
                  exact header?_eq_none_iff.mp hheader path source hsource kind h

theorem lineKind_eq_header_true_iff :
    lineKind sources line = .header source true ↔
      Opens sources line source ∧ line.head? ≠ some '[' := by
  rw [← header?_eq_some_true_iff]
  unfold lineKind
  constructor
  · intro h
    split at h
    · cases h
    · next hdivider =>
        rw [not_or] at hdivider
        split at h
        · next hheader =>
            cases h
            exact ⟨hheader, hdivider.1⟩
        · split at h <;> cases h
  · rintro ⟨hheader, hreport⟩
    have hnonblank : Text.trim line ≠ [] := by
      rw [ne_eq, trim_eq_nil_iff]
      rcases header?_eq_some_true_iff.mp hheader with ⟨_, path, _, kind, _, ⟨number, rfl, _⟩, _⟩
      intro h
      have hcolon := h ':' (List.mem_append_right _ List.mem_cons_self)
      revert hcolon
      decide
    rw [if_neg (not_or_intro hreport hnonblank), hheader]

/-!
# Passages

A passage begins at the header of an error and takes in what goes on with it.
-/

structure Passage where
  source : String
  /-- The number of lines before it. -/
  start : Nat
  lines : List Line

namespace Passage

def text (passage : Passage) : String :=
  "\n".intercalate (passage.lines.map String.ofList)

def Covers (passage : Passage) (position : Nat) : Prop :=
  passage.start ≤ position ∧ position < passage.start + passage.lines.length

end Passage

def continuation (sources : List (Line × String)) (lines : List Line) : List Line :=
  lines.takeWhile fun line => lineKind sources line = .other

def passagesFrom (sources : List (Line × String)) (start : Nat) : List Line → List Passage
  | [] => []
  | line :: rest =>
    match lineKind sources line with
    | .header source true =>
      ⟨source, start, line :: continuation sources rest⟩ :: passagesFrom sources (start + 1) rest
    | _ => passagesFrom sources (start + 1) rest

variable {start position : Nat} {lines rest : List Line} {passage : Passage}

theorem passagesFrom_cons_of_header (h : lineKind sources line = .header source true) :
    passagesFrom sources start (line :: rest) =
      ⟨source, start, line :: continuation sources rest⟩ ::
        passagesFrom sources (start + 1) rest := by
  rw [passagesFrom, h]

theorem passagesFrom_cons_of_not_header
    (h : ∀ source, lineKind sources line ≠ .header source true) :
    passagesFrom sources start (line :: rest) = passagesFrom sources (start + 1) rest := by
  rw [passagesFrom]
  split
  · next source hkind => exact absurd hkind (h source)
  · rfl

theorem lt_length_continuation_iff :
    position < (continuation sources lines).length ↔
      position < lines.length ∧
        ∀ i ≤ position, ∀ line, lines[i]? = some line → lineKind sources line = .other := by
  unfold continuation
  induction lines generalizing position with
  | nil => simp
  | cons first rest ih =>
      by_cases hfirst : lineKind sources first = .other
      · rw [List.takeWhile_cons_of_pos (by simpa using hfirst)]
        cases position with
        | zero => simpa using hfirst
        | succ position =>
            rw [List.length_cons, List.length_cons, Nat.succ_lt_succ_iff, Nat.succ_lt_succ_iff, ih]
            refine and_congr_right fun _ =>
              ⟨fun h i hi line hline => ?_, fun h i hi line hline => ?_⟩
            · cases i with
              | zero =>
                  cases hline
                  exact hfirst
              | succ i => exact h i (Nat.le_of_succ_le_succ hi) line hline
            · exact h (i + 1) (Nat.succ_le_succ hi) line hline
      · rw [List.takeWhile_cons_of_neg (by simpa using hfirst)]
        refine iff_of_false (Nat.not_lt_zero _) fun h => hfirst ?_
        exact h.2 0 (Nat.zero_le _) first rfl

theorem mem_passagesFrom_iff :
    passage ∈ passagesFrom sources start lines ↔
      ∃ i line, lines[i]? = some line ∧
        lineKind sources line = .header passage.source true ∧ passage.start = start + i ∧
        passage.lines = line :: continuation sources (lines.drop (i + 1)) := by
  induction lines generalizing start with
  | nil => simp [passagesFrom]
  | cons first rest ih =>
      have hlater : passage ∈ passagesFrom sources (start + 1) rest ↔
          ∃ i line, (first :: rest)[i + 1]? = some line ∧
            lineKind sources line = .header passage.source true ∧
            passage.start = start + (i + 1) ∧
            passage.lines = line :: continuation sources ((first :: rest).drop (i + 1 + 1)) := by
        rw [ih]
        simp only [List.getElem?_cons_succ, List.drop_succ_cons, Nat.add_assoc, Nat.add_comm 1]
      rw [← Nat.or_exists_add_one, ← hlater]
      by_cases hheader : ∃ source, lineKind sources first = .header source true
      · rcases hheader with ⟨source, hkind⟩
        rw [passagesFrom_cons_of_header hkind, List.mem_cons]
        refine or_congr_left ⟨?_, ?_⟩
        · rintro rfl
          exact ⟨first, rfl, hkind, rfl, rfl⟩
        · rcases passage with ⟨asked, begins, taken⟩
          rintro ⟨line, hline, hline', hstart, hlines⟩
          cases hline
          rw [hkind] at hline'
          cases hline'
          cases hstart
          cases hlines
          rfl
      · rw [not_exists] at hheader
        rw [passagesFrom_cons_of_not_header hheader, or_iff_right]
        rintro ⟨line, hline, hkind, _⟩
        cases hline
        exact hheader _ hkind

theorem pairwise_passagesFrom :
    (passagesFrom sources start lines).Pairwise fun first second =>
      first.start + first.lines.length ≤ second.start := by
  induction lines generalizing start with
  | nil => exact .nil
  | cons first rest ih =>
      by_cases hheader : ∃ source, lineKind sources first = .header source true
      · rcases hheader with ⟨source, hkind⟩
        rw [passagesFrom_cons_of_header hkind]
        refine .cons (fun second hsecond => ?_) ih
        rcases mem_passagesFrom_iff.mp hsecond with ⟨i, line, hline, hkind, hstart, _⟩
        -- The header of the second passage ends what goes on with the first.
        have hlength : (continuation sources rest).length ≤ i := by
          by_contra hlt
          rw [Nat.not_le, lt_length_continuation_iff] at hlt
          rw [hlt.2 i (Nat.le_refl i) line hline] at hkind
          cases hkind
        rw [hstart, List.length_cons]
        show start + (_ + 1) ≤ _
        omega
      · rw [not_exists] at hheader
        rw [passagesFrom_cons_of_not_header hheader]
        exact ih

/-- By induction on the lines; no passage begins in what goes on with a message. -/
theorem flatMap_lines_passagesFrom_sublist :
    ((passagesFrom sources start lines).flatMap Passage.lines).Sublist
      (lines.dropWhile fun line => lineKind sources line = .other) := by
  induction lines generalizing start with
  | nil => exact .slnil
  | cons first rest ih =>
      by_cases hother : lineKind sources first = .other
      · rw [passagesFrom_cons_of_not_header (by simp [hother]),
          List.dropWhile_cons_of_pos (by simpa using hother)]
        exact ih
      rw [List.dropWhile_cons_of_neg (by simpa using hother)]
      by_cases hheader : ∃ source, lineKind sources first = .header source true
      · rcases hheader with ⟨source, hkind⟩
        rw [passagesFrom_cons_of_header hkind, List.flatMap_cons, List.cons_append]
        have hrest : (continuation sources rest ++
            (passagesFrom sources (start + 1) rest).flatMap Passage.lines).Sublist
              (continuation sources rest ++
                rest.dropWhile fun line => lineKind sources line = .other) :=
          ih.append_left _
        rw [continuation, List.takeWhile_append_dropWhile] at hrest
        exact hrest.cons_cons first
      · rw [not_exists] at hheader
        rw [passagesFrom_cons_of_not_header hheader]
        exact (ih.trans (List.dropWhile_sublist _)).cons _

/-!
# The grouping

Whatever was grouped before, going through more lines first puts what goes on
with the open message under it and then adds the passages that follow.
-/

def continued (messages : List String) (lines : List Line) : List String :=
  lines.foldl (fun messages line => Grouping.continueLast (String.ofList line) messages) messages

theorem continueLast_append (line message : String) (messages : List String) :
    Grouping.continueLast line (messages ++ [message]) = messages ++ [message ++ "\n" ++ line] := by
  induction messages with
  | nil => rfl
  | cons first rest ih =>
      cases rest with
      | nil => rfl
      | cons second rest =>
          show first :: Grouping.continueLast line (second :: rest ++ [message]) = _
          rw [ih]
          rfl

theorem continued_append (messages : List String) {first : List String} (hfirst : first ≠ [])
    (lines : List Line) :
    continued (messages ++ ["\n".intercalate first]) lines =
      messages ++ ["\n".intercalate (first ++ lines.map String.ofList)] := by
  induction lines generalizing first with
  | nil =>
      rw [List.map_nil, List.append_nil]
      rfl
  | cons line rest ih =>
      have hjoined : "\n".intercalate first ++ "\n" ++ String.ofList line =
          "\n".intercalate (first ++ [String.ofList line]) := by
        rw [String.intercalate_append_of_ne_nil hfirst (List.cons_ne_nil _ _),
          String.intercalate_singleton]
      show continued (Grouping.continueLast (String.ofList line) (messages ++ [_])) rest = _
      rw [continueLast_append, hjoined, ih (by simp), List.append_assoc]
      rfl

namespace Grouping

def messagesOf (grouping : Grouping) (source : String) : List String :=
  grouping.messages[source]?.getD []

theorem add_of_header (grouping : Grouping) (h : lineKind sources line = .header source true) :
    (grouping.add sources line).current = some source ∧
      (grouping.add sources line).messagesOf source =
        grouping.messagesOf source ++ [String.ofList line] ∧
      ∀ other ≠ source,
        (grouping.add sources line).messagesOf other = grouping.messagesOf other := by
  unfold add messagesOf
  rw [h]
  refine ⟨rfl, ?_, fun other hother => ?_⟩
  · simp
  · simp [Std.ExtTreeMap.getElem?_insert, hother.symm]

theorem add_of_other (grouping : Grouping) (h : lineKind sources line = .other) :
    (grouping.add sources line).current = grouping.current ∧
      ∀ source, (grouping.add sources line).messagesOf source =
        if grouping.current = some source then
          continueLast (String.ofList line) (grouping.messagesOf source)
        else grouping.messagesOf source := by
  unfold add messagesOf
  rw [h]
  cases hcurrent : grouping.current with
  | none => simp [hcurrent]
  | some asked =>
      cases hasked : grouping.messages[asked]? with
      | none =>
          refine ⟨by simp [hasked, hcurrent], fun source => ?_⟩
          by_cases hsource : asked = source
          · subst hsource
            simp [hasked, continueLast]
          · simp [hasked, hsource]
      | some messages =>
          refine ⟨by simp [hasked], fun source => ?_⟩
          by_cases hsource : asked = source
          · subst hsource
            simp [hasked]
          · simp [hasked, hsource, Std.ExtTreeMap.getElem?_insert]

theorem add_of_end (grouping : Grouping) (hother : lineKind sources line ≠ .other)
    (hheader : ∀ source, lineKind sources line ≠ .header source true) :
    grouping.add sources line = { grouping with current := none } := by
  unfold add
  cases hkind : lineKind sources line with
  | divider => rfl
  | summary => rfl
  | header source isError =>
      cases isError with
      | true => exact absurd hkind (hheader source)
      | false => rfl
  | other => exact absurd hkind hother

def settled (sources : List (Line × String)) (source : String) (grouping : Grouping)
    (lines : List Line) : List String :=
  if grouping.current = some source then
    continued (grouping.messagesOf source) (continuation sources lines)
  else grouping.messagesOf source

theorem settled_of_ne_other (grouping : Grouping) (h : lineKind sources line ≠ .other) :
    settled sources source grouping (line :: rest) = grouping.messagesOf source := by
  unfold settled continuation
  rw [List.takeWhile_cons_of_neg (by simpa using h)]
  exact ite_self _

theorem settled_add_of_other (grouping : Grouping) (h : lineKind sources line = .other) :
    settled sources source (grouping.add sources line) rest =
      settled sources source grouping (line :: rest) := by
  rcases grouping.add_of_other h with ⟨hcurrent, hmessages⟩
  unfold settled continuation
  rw [hcurrent, hmessages, List.takeWhile_cons_of_pos (by simpa using h)]
  split <;> rfl

theorem settled_add_of_header (grouping : Grouping)
    (h : lineKind sources line = .header source true) :
    settled sources source (grouping.add sources line) rest =
      grouping.messagesOf source ++
        [Passage.text ⟨source, start, line :: continuation sources rest⟩] := by
  rcases grouping.add_of_header h with ⟨hcurrent, hmessages, _⟩
  have hopen := continued_append (grouping.messagesOf source)
    (List.cons_ne_nil (String.ofList line) []) (continuation sources rest)
  rw [String.intercalate_singleton] at hopen
  unfold settled
  rw [if_pos hcurrent, hmessages, hopen]
  rfl

theorem settled_add_of_other_header {asked : String} (grouping : Grouping)
    (h : lineKind sources line = .header asked true) (hasked : asked ≠ source) :
    settled sources source (grouping.add sources line) rest = grouping.messagesOf source := by
  rcases grouping.add_of_header h with ⟨hcurrent, _, hothers⟩
  unfold settled
  rw [hcurrent, if_neg (by simpa using hasked)]
  exact hothers source hasked.symm

theorem settled_add_of_end (grouping : Grouping) (hother : lineKind sources line ≠ .other)
    (hheader : ∀ source, lineKind sources line ≠ .header source true) :
    settled sources source (grouping.add sources line) rest = grouping.messagesOf source := by
  unfold settled
  rw [grouping.add_of_end hother hheader, if_neg nofun]
  rfl

/-- By induction on the lines; the open message is the only one that they can go on with. -/
theorem messagesOf_foldl_add (sources : List (Line × String)) (source : String)
    (lines : List Line) (grouping : Grouping) (start : Nat) :
    (lines.foldl (add sources) grouping).messagesOf source =
      settled sources source grouping lines ++
      ((passagesFrom sources start lines).filter fun passage => passage.source = source).map
        Passage.text := by
  induction lines generalizing grouping start with
  | nil => simp [settled, passagesFrom, continuation, continued]
  | cons line rest ih =>
      rw [List.foldl_cons, ih _ (start + 1)]
      by_cases hother : lineKind sources line = .other
      · rw [settled_add_of_other grouping hother,
          passagesFrom_cons_of_not_header (by simp [hother])]
      rw [settled_of_ne_other grouping hother]
      by_cases hheader : ∃ asked, lineKind sources line = .header asked true
      · rcases hheader with ⟨asked, hkind⟩
        rw [passagesFrom_cons_of_header hkind]
        by_cases hsource : asked = source
        · subst hsource
          rw [settled_add_of_header grouping hkind, List.filter_cons_of_pos (by simp),
            List.map_cons, List.append_assoc]
          rfl
        · rw [settled_add_of_other_header grouping hkind hsource,
            List.filter_cons_of_neg (by simpa using hsource)]
      · rw [not_exists] at hheader
        rw [settled_add_of_end grouping hother hheader, passagesFrom_cons_of_not_header hheader]

end Grouping

/-!
# The whole log
-/

structure Divides (sources : List (Line × String)) (lines : List Line)
    (passages : List Passage) : Prop where
  cut : ∀ passage ∈ passages, passage.lines <+: lines.drop passage.start
  disjoint : passages.Pairwise fun first second =>
    first.start + first.lines.length ≤ second.start
  sublist : (passages.flatMap Passage.lines).Sublist lines
  /-- A passage takes in all that follows its first line, up to a line that interrupts it. -/
  covers : ∀ passage ∈ passages, ∀ position, passage.Covers position ↔
    passage.start ≤ position ∧ position < lines.length ∧
      ∀ i, passage.start < i → i ≤ position →
        ∀ line, lines[i]? = some line → ¬Interrupts sources line

def BeginAt (begins : Line → String → Prop) (lines : List Line) (passages : List Passage) : Prop :=
  ∀ position source,
    (∃ passage ∈ passages, passage.start = position ∧ passage.source = source) ↔
      ∃ line, lines[position]? = some line ∧ begins line source

theorem divides_passagesFrom (sources : List (Line × String)) (lines : List Line) :
    Divides sources lines (passagesFrom sources 0 lines) where
  cut passage hpassage := by
    rcases mem_passagesFrom_iff.mp hpassage with ⟨i, line, hline, _, hstart, hlines⟩
    rcases List.getElem?_eq_some_iff.mp hline with ⟨hi, rfl⟩
    rw [hlines, hstart, Nat.zero_add, List.drop_eq_getElem_cons hi]
    exact (List.prefix_cons_inj _).mpr (List.takeWhile_prefix _)
  disjoint := pairwise_passagesFrom
  sublist := flatMap_lines_passagesFrom_sublist.trans (List.dropWhile_sublist _)
  covers passage hpassage position := by
    rcases mem_passagesFrom_iff.mp hpassage with ⟨i, line, hline, _, hstart, hlines⟩
    rw [Nat.zero_add] at hstart
    have hi := (List.getElem?_eq_some_iff.mp hline).1
    unfold Passage.Covers
    rw [hlines, hstart, List.length_cons]
    refine and_congr_right fun hposition => ?_
    rcases Nat.exists_eq_add_of_le hposition with ⟨offset, rfl⟩
    cases offset with
    | zero =>
        refine iff_of_true (by omega) ⟨hi, fun j hlt hle => ?_⟩
        omega
    | succ offset =>
        rw [Nat.add_lt_add_iff_left, Nat.succ_lt_succ_iff, lt_length_continuation_iff,
          List.length_drop]
        simp only [List.getElem?_drop, lineKind_eq_other_iff]
        refine and_congr (by omega) ⟨fun h j hlt hle => ?_, fun h j hle => ?_⟩
        · have hj := h (j - (i + 1)) (by omega)
          rwa [show i + 1 + (j - (i + 1)) = j by omega] at hj
        · exact h (i + 1 + j) (by omega) (by omega)

theorem beginAt_passagesFrom (sources : List (Line × String)) (lines : List Line) :
    BeginAt (fun line source => Opens sources line source ∧ line.head? ≠ some '[') lines
      (passagesFrom sources 0 lines) := by
  intro position source
  simp only [← lineKind_eq_header_true_iff]
  constructor
  · rintro ⟨passage, hpassage, rfl, rfl⟩
    rcases mem_passagesFrom_iff.mp hpassage with ⟨i, line, hline, hkind, hstart, _⟩
    rw [hstart, Nat.zero_add]
    exact ⟨line, hline, hkind⟩
  · rintro ⟨line, hline, hkind⟩
    exact ⟨⟨source, position, _⟩,
      mem_passagesFrom_iff.mpr ⟨position, line, hline, hkind, (Nat.zero_add _).symm, rfl⟩, rfl, rfl⟩

/-- The brackets are all that keeps a header of an error from beginning a passage. -/
theorem beginAt_opens_iff {passages : List Passage}
    (h : BeginAt (fun line source => Opens sources line source ∧ line.head? ≠ some '[') lines
      passages) :
    BeginAt (Opens sources) lines passages ↔
      ∀ line ∈ lines, ∀ source, Opens sources line source → line.head? ≠ some '[' := by
  constructor
  · intro hopens line hline source hopen
    rcases List.getElem?_of_mem hline with ⟨position, hposition⟩
    have hbegins := (hopens position source).mpr ⟨line, hposition, hopen⟩
    rcases (h position source).mp hbegins with ⟨found, hfound, _, hbracket⟩
    rw [hposition, Option.some.injEq] at hfound
    rw [hfound]
    exact hbracket
  · intro hbracket position source
    rw [h position source]
    refine exists_congr fun line => and_congr_right fun hline => and_iff_left_of_imp ?_
    exact hbracket line (List.mem_of_getElem? hline) source

theorem not_mem_of_mem_lines {log line : List Char} (h : line ∈ Text.lines log) : '\n' ∉ line := by
  unfold Text.lines at h
  rcases List.mem_append.mp h with h | h
  · rcases List.mem_map.mp h with ⟨run, hrun, rfl⟩
    have hclean := Text.not_mem_of_mem_pieces (List.dropLast_subset _ hrun)
    unfold Text.withoutReturn
    cases hreturn : Text.before? ['\r'] run with
    | none => exact hclean
    | some kept =>
        rw [Text.before?_eq_some_iff.mp hreturn] at hclean
        exact fun hmem => hclean (List.mem_append_left _ hmem)
  · split at h
    · cases h
    · next hlast =>
        rw [List.mem_singleton.mp h]
        cases hruns : (Text.pieces '\n' log).getLast? with
        | none => exact List.not_mem_nil
        | some last => exact Text.not_mem_of_mem_pieces (List.mem_of_getLast? hruns)

theorem exists_passage_iff (start : Nat) :
    (∃ passage ∈ passagesFrom sources start lines, passage.source = source) ↔
      ∃ line ∈ lines, lineKind sources line = .header source true := by
  constructor
  · rintro ⟨passage, hpassage, rfl⟩
    rcases mem_passagesFrom_iff.mp hpassage with ⟨i, line, hline, hkind, _⟩
    exact ⟨line, List.mem_of_getElem? hline, hkind⟩
  · rintro ⟨line, hline, hkind⟩
    rcases List.getElem?_of_mem hline with ⟨i, hi⟩
    exact ⟨⟨source, start + i, _⟩, mem_passagesFrom_iff.mpr ⟨i, line, hi, hkind, rfl, rfl⟩, rfl⟩

theorem getElem?_errorsBySource_eq_some_iff {batch : Batch} {log : List Char}
    {messages : List String} :
    (errorsBySource batch log)[source]? = some messages ↔
      messages ≠ [] ∧ messages =
        ((passagesFrom (sourcePaths batch) 0 (Text.lines log)).filter fun passage =>
          passage.source = source).map Passage.text := by
  have hall := Grouping.messagesOf_foldl_add (sourcePaths batch) source (Text.lines log) .empty 0
  rw [Grouping.settled, if_neg nofun] at hall
  have htexts : (errorsBySource batch log)[source]?.getD [] =
      ((passagesFrom (sourcePaths batch) 0 (Text.lines log)).filter fun passage =>
        passage.source = source).map Passage.text :=
    hall
  have hentry : source ∈ errorsBySource batch log ↔
      ((passagesFrom (sourcePaths batch) 0 (Text.lines log)).filter fun passage =>
        passage.source = source).map Passage.text ≠ [] := by
    rw [mem_errorsBySource_iff, ← exists_passage_iff 0, ne_eq, List.map_eq_nil_iff,
      List.filter_eq_nil_iff]
    simp
  rw [Std.ExtTreeMap.mem_iff_isSome_getElem?] at hentry
  cases hfound : (errorsBySource batch log)[source]? with
  | none =>
      rw [hfound] at htexts
      simp [← htexts]
  | some found =>
      rw [hfound] at htexts hentry
      rw [← show found = _ from htexts] at hentry ⊢
      rw [Option.some.injEq]
      constructor
      · rintro rfl
        exact ⟨hentry.mp rfl, rfl⟩
      · exact fun h => h.2.symm

/--
The messages of all sources are passages of the log, in its order, that have no
line in common. One begins at each header of an error for the first source that
the header names, and it takes in what follows up to a blank line, a report in
brackets, a summary or another header, all of it. Where a header begins with a
bracket itself it is taken for a report, so it begins no message.
-/
theorem messages_are_passages (batch : Batch) (log : List Char) :
    ∃ passages : List Passage,
      Divides (sourcePaths batch) (Text.lines log) passages ∧
      BeginAt (fun line source => Opens (sourcePaths batch) line source ∧ line.head? ≠ some '[')
        (Text.lines log) passages ∧
      (BeginAt (Opens (sourcePaths batch)) (Text.lines log) passages ↔
        ∀ line ∈ Text.lines log, ∀ source,
          Opens (sourcePaths batch) line source → line.head? ≠ some '[') ∧
      (∀ passage ∈ passages, Text.pieces '\n' passage.text.toList = passage.lines) ∧
      ∀ source messages, (errorsBySource batch log)[source]? = some messages ↔
        messages ≠ [] ∧ messages =
          (passages.filter fun passage => passage.source = source).map Passage.text := by
  have hbegins := beginAt_passagesFrom (sourcePaths batch) (Text.lines log)
  refine ⟨passagesFrom (sourcePaths batch) 0 (Text.lines log),
    divides_passagesFrom _ _, hbegins, beginAt_opens_iff hbegins, ?_, ?_⟩
  · intro passage hpassage
    have hcut := (divides_passagesFrom (sourcePaths batch) (Text.lines log)).cut passage hpassage
    have hclean : ∀ line ∈ passage.lines, '\n' ∉ line := fun line hline =>
      not_mem_of_mem_lines (List.mem_of_mem_drop (hcut.mem hline))
    have hne : passage.lines ≠ [] := by
      rcases mem_passagesFrom_iff.mp hpassage with ⟨_, _, _, _, _, hlines⟩
      rw [hlines]
      exact List.cons_ne_nil _ _
    have htext : passage.text.toList = ['\n'].intercalate passage.lines := by
      unfold Passage.text
      rw [String.toList_intercalate, List.map_map]
      simp
    rw [htext, Text.pieces_intercalate hclean hne]
  · exact fun source messages => getElem?_errorsBySource_eq_some_iff

theorem no_message_of_bracketed_path :
    "[src/A.java:1: error: boom".toList ∈
        Text.lines "[src/A.java:1: error: boom\n1 error\n".toList ∧
      Opens (sourcePaths ⟨⟨"[src"⟩, ["A.java"], "out", ⟨"out"⟩⟩)
        "[src/A.java:1: error: boom".toList "A.java" ∧
      "A.java" ∉ errorsBySource ⟨⟨"[src"⟩, ["A.java"], "out", ⟨"out"⟩⟩
        "[src/A.java:1: error: boom\n1 error\n".toList := by
  refine ⟨by decide, ?_, ?_⟩
  · exact header?_eq_some_true_iff.mp (by decide)
  · rw [mem_errorsBySource_iff]
    decide

end CompilerLog
end Recompile
