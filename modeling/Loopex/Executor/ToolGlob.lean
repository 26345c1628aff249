import Loopex.Erlang.Unicode
import Loopex.System.Regex

/-!
# Globs

A glob is compiled to the text of a regular expression, segment by segment: `**` stands for whole segments, and every
other segment for the characters between two slashes.  A string is the list of its code points.

* `compile` — the compilation, through the text of the expression
* `Reads` — the grammar of globs: how a text is read as segments
* `globMatches` — the matcher of a glob that is read
-/

namespace Loopex.Executor.ToolGlob

open Loopex.Erlang Loopex.System

/-- A string of code points. -/
abbrev Text := List ℕ

def textOf (s : String) : Text := s.toList.map Char.toNat

/-! ## the compilation -/

/-- `split_segments`: a quoted slash does not end a segment. -/
def splitSegments : Text → Text → List Text → List Text
  | [], current, segments => (current.reverse :: segments).reverse
  | 92 :: next :: rest, current, segments => splitSegments rest (next :: 92 :: current) segments
  | 47 :: rest, current, segments => splitSegments rest [] (current.reverse :: segments)
  | point :: rest, current, segments => splitSegments rest (point :: current) segments

/-- What `Regex.escape` escapes. -/
def escapable (c : ℕ) : Bool := c ∈ [9, 10, 11, 12, 13, 32, 35, 36, 40, 41, 42, 43, 45, 46, 63, 91, 92, 93, 94, 123, 124, 125]

/-- `Regex.escape` of one character. -/
def escape (c : ℕ) : Text := if escapable c then [92, c] else [c]

/-- A member of a class, and whether it is quoted. -/
abbrev Member := ℕ × Bool

/-- `class_members`; nothing where it throws. -/
def classMembers : Text → List Member → Option (List Member × Text)
  | [], _ => none
  | [92], _ => none
  | 93 :: rest, members => some (members.reverse, rest)
  | 47 :: _, _ => none
  | 92 :: 47 :: _, _ => none
  | 92 :: value :: rest, members => classMembers rest ((value, true) :: members)
  | value :: rest, members => classMembers rest ((value, false) :: members)

/-- `class_literal`. -/
def classLiteral (value : ℕ) : Text := if value ∈ [45, 93, 91, 94, 92] then [92, value] else [value]

/-- `first > last` of two characters, as binaries. -/
def greater (first last : ℕ) : Bool := decide (utf8Encode last < utf8Encode first)

/-- `class_source`; nothing where it throws. -/
def classSource : List Member → Bool → Option Text
  | (first, firstQuoted) :: (45, false) :: (last, lastQuoted) :: rest, start =>
    if first = 45 ∧ !firstQuoted ∧ !start ∨ last = 45 ∧ !lastQuoted ∧ rest ≠ [] then none
    else if greater first last then none
    else (classSource rest false).map fun source => classLiteral first ++ 45 :: classLiteral last ++ source
  | (45, false) :: _ :: _, false => none
  | (value, _) :: rest, _ => (classSource rest false).map fun source => classLiteral value ++ source
  | [], _ => some []

theorem classMembers_length {s rest : Text} {members found : List Member} (h : classMembers s members = some (found, rest)) :
    rest.length < s.length := by
  induction s, members using classMembers.induct with
  | case1 => cases h
  | case2 => cases h
  | case3 rest' members =>
    cases h
    simp
  | case4 => cases h
  | case5 => cases h
  | case6 value rest' members hslash ih =>
    rw [classMembers] at h
    · have := ih h
      simp only [List.length_cons]
      omega
    · exact hslash
  | case7 value rest' members h1 h2 h3 h4 h5 ih =>
    rw [classMembers] at h
    · have := ih h
      simp only [List.length_cons]
      omega
    all_goals assumption

/-- `segment`; nothing where it throws. -/
def segment : Text → Option Text
  | [] => some []
  | 42 :: 42 :: _ => none
  | 42 :: rest => (segment rest).map fun source => textOf "[^/]*" ++ source
  | 63 :: rest => (segment rest).map fun source => textOf "[^/]" ++ source
  | [92] => none
  | 92 :: literal :: rest => (segment rest).map fun source => escape literal ++ source
  | 91 :: 94 :: rest =>
    match _h : classMembers rest [] with
    | some (members, tail) =>
      if members = [] then none
      else (classSource members true).bind fun source => (segment tail).map fun more =>
        textOf "(?:(?!/)[" ++ 94 :: source ++ textOf "])" ++ more
    | none => none
  | 91 :: rest =>
    match _h : classMembers rest [] with
    | some (members, tail) =>
      if members = [] then none
      else (classSource members true).bind fun source => (segment tail).map fun more =>
        textOf "(?:(?!/)[" ++ source ++ textOf "])" ++ more
    | none => none
  | literal :: rest => (segment rest).map fun source => escape literal ++ source
termination_by s => s.length
decreasing_by
  all_goals simp only [List.length_cons]
  all_goals try omega
  -- a class ends before the text does
  all_goals exact Nat.lt_trans (classMembers_length ‹_›) (by omega)

/-- `segments`. -/
def segments : List Text → Option Text
  | [] => some []
  | [part] => if part = textOf "**" then some (textOf "(?:[^/]+(?:/[^/]+)*)?") else segment part
  | part :: next :: rest =>
    if part = textOf "**" then (segments (next :: rest)).map fun source => textOf "(?:[^/]+/)*" ++ source
    else if next = textOf "**" ∧ rest = [] then (segment part).map fun source => source ++ textOf "(?:/[^/]+)*"
    else (segment part).bind fun source => (segments (next :: rest)).map fun more => source ++ 47 :: more

inductive GlobError where
  | invalidGlob
  | regex
  deriving DecidableEq

/-- `compile`. -/
def compile (pattern : Text) : Except GlobError Regex :=
  let parts := splitSegments pattern [] []
  if parts.any fun part => part ∈ [[], textOf ".", textOf ".."] then .error .invalidGlob
  else match segments parts with
    | none => .error .invalidGlob
    | some source =>
      match Regex.parse (textOf "\\A" ++ source ++ textOf "\\z") with
      | some regex => .ok regex
      | none => .error .regex

/-! ## the grammar -/

/-- A member of a class, or a range of them. -/
inductive Item where
  | one (c : ℕ)
  | range (low high : ℕ)

/-- A piece of a segment. -/
inductive Element where
  | star
  | any
  | literal (c : ℕ)
  | cls (negated : Bool) (items : List Item)

inductive Segment where
  | doubleStar
  | part (elements : List Element)

/-- The text of a class up to its bracket: its members, of which none is a slash. -/
inductive Members : Text → List Member → Prop
  | nil : Members [] []
  | quoted {c s members} (slash : c ≠ 47) : Members s members → Members (92 :: c :: s) ((c, true) :: members)
  | plain {c s members} (special : c ∉ [47, 92, 93]) : Members s members → Members (c :: s) ((c, false) :: members)

/-- The hyphen that makes a range. -/
def hyphen : Member := (45, false)

/-- The members of a class as items: three of them with a hyphen in the middle are a range in order, and a hyphen stands
for itself at the start and at the end of the class only. -/
inductive Items : Bool → List Member → List Item → Prop
  | nil {start} : Items start [] []
  | range {start a b rest items} (first : a = hyphen → start = true) (last : b = hyphen → rest = []) (order : a.1 ≤ b.1) :
      Items false rest items → Items start (a :: hyphen :: b :: rest) (.range a.1 b.1 :: items)
  | one {start a rest items} (alone : ∀ b rest', rest ≠ hyphen :: b :: rest')
      (edge : a = hyphen → start = true ∨ rest = []) :
      Items false rest items → Items start (a :: rest) (.one a.1 :: items)

/-- The text between the brackets of a class, which has a member. -/
inductive Class : Text → Bool → List Item → Prop
  | positive {s members items} (caret : s.head? ≠ some 94) (some_member : members ≠ []) :
      Members s members → Items true members items → Class s false items
  | negative {s members items} (some_member : members ≠ []) :
      Members s members → Items true members items → Class (94 :: s) true items

/-- The text of a segment. -/
inductive Part : Text → List Element → Prop
  | nil : Part [] []
  | star {s elements} (single : s.head? ≠ some 42) : Part s elements → Part (42 :: s) (.star :: elements)
  | any {s elements} : Part s elements → Part (63 :: s) (.any :: elements)
  | quoted {c s elements} : Part s elements → Part (92 :: c :: s) (.literal c :: elements)
  | cls {text negated items s elements} : Class text negated items → Part s elements →
      Part (91 :: text ++ 93 :: s) (.cls negated items :: elements)
  | literal {c s elements} (special : c ∉ [42, 47, 63, 91, 92]) : Part s elements →
      Part (c :: s) (.literal c :: elements)

/-- A whole segment. -/
inductive ReadsSegment : Text → Segment → Prop
  | doubleStar : ReadsSegment (textOf "**") .doubleStar
  | part {s elements} (proper : s ∉ [[], textOf ".", textOf ".."]) : Part s elements → ReadsSegment s (.part elements)

/-- A glob: segments between slashes. -/
inductive Reads : Text → List Segment → Prop
  | last {s segment} : ReadsSegment s segment → Reads s [segment]
  | more {s segment t segments} : ReadsSegment s segment → Reads t segments →
      Reads (s ++ 47 :: t) (segment :: segments)

/-! ## the matcher -/

def Item.admits (c : ℕ) : Item → Bool
  | .one d => c = d
  | .range low high => low ≤ c && c ≤ high

/-- A character of a class, which is no slash. -/
def classAdmits (negated : Bool) (items : List Item) (c : ℕ) : Bool := c ≠ 47 && (items.any (Item.admits c) != negated)

/-- The elements of a segment match the whole text. -/
def partMatches : List Element → Text → Bool
  | [], t => t.isEmpty
  | .star :: elements, [] => partMatches elements []
  | .star :: elements, c :: t => partMatches elements (c :: t) || (c ≠ 47 && partMatches (.star :: elements) t)
  | .any :: elements, c :: t => c ≠ 47 && partMatches elements t
  | .literal d :: elements, c :: t => c = d && partMatches elements t
  | .cls negated items :: elements, c :: t => classAdmits negated items c && partMatches elements t
  | _ :: _, [] => false

/-- The path of some segments. -/
def join : List Text → Text
  | [] => []
  | [s] => s
  | s :: t :: rest => s ++ 47 :: join (t :: rest)

/-- The matcher of a glob, on the segments of a path: `**` takes any number of them, and any other segment as many as
its slashes say, at least one. -/
def globMatches : List Segment → List Text → Bool
  | [], path => path.isEmpty
  | .doubleStar :: glob, path => (List.range (path.length + 1)).any fun k => globMatches glob (path.drop k)
  | .part elements :: glob, path => (List.range path.length).any fun k =>
      partMatches elements (join (path.take (k + 1))) && globMatches glob (path.drop (k + 1))

/-- A relative path: segments of some characters that are no slashes. -/
def IsPath (path : List Text) : Prop := path ≠ [] ∧ ∀ s ∈ path, s ≠ [] ∧ 47 ∉ s

end Loopex.Executor.ToolGlob
