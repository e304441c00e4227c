import ClauseLisp.Text.Cluster.Class

/-!
# Clusters

A text is split into *clusters*, the characters as a reader sees them. Whether the next character
joins the cluster before it depends on its class and on what precedes:

* nothing joins a control, and a control joins nothing, except a line feed after a carriage return;
* the jamo of a syllable of Hangul stay together;
* marks and joiners belong to what is before them, and prepended signs to what is after them;
* a consonant joins the one before it across marks of which one at least is a linker;
* a pictograph joins the one before it across marks and a joiner after them;
* regional indicators go in pairs.

`Lookback` keeps what of the text before can matter for these rules.
-/

namespace ClauseLisp.Text

/-- How far a text that is read forms a picture of several parts. -/
inductive Picture where
  | none
  /-- A pictograph, and marks after it. -/
  | begun
  /-- A pictograph, marks after it, and a joiner. -/
  | joined
deriving Repr, DecidableEq, Inhabited

/-- How far a text that is read forms a conjunct. -/
inductive Conjunct where
  | none
  /-- A consonant, and marks after it that do not link. -/
  | begun
  /-- A consonant and marks after it, one of them a linker. -/
  | linked
deriving Repr, DecidableEq, Inhabited

/-- The picture after one more character. -/
def Picture.next (p : Picture) : ClusterClass → Picture
  | .pictograph => .begun
  | .extend | .linker | .nonJoiner => if p = .begun then .begun else .none
  | .joiner => if p = .begun then .joined else .none
  | _ => .none

/-- The conjunct after one more character. -/
def Conjunct.next (c : Conjunct) : ClusterClass → Conjunct
  | .consonant => .begun
  | .linker => if c = .none then .none else .linked
  | .extend | .joiner => c
  | _ => .none

/-- What has been read, as far as it decides whether the next character joins. -/
structure Lookback where
  /-- The class of the last character. -/
  last : ClusterClass
  picture : Picture
  conjunct : Conjunct
  /-- Whether the text ends in an odd number of regional indicators. -/
  unpaired : Bool
deriving Repr, DecidableEq, Inhabited

namespace Lookback

/-- What one character leaves behind at the beginning of a text. -/
def start (k : ClusterClass) : Lookback :=
  ⟨k, Picture.none.next k, Conjunct.none.next k, k = .regional⟩

/-- What one more character leaves behind. -/
def next (b : Lookback) (k : ClusterClass) : Lookback :=
  ⟨k, b.picture.next k, b.conjunct.next k, k = .regional && !b.unpaired⟩

/-- Whether a character of this class joins what is before it. -/
def joins (b : Lookback) (k : ClusterClass) : Bool :=
  if b.last = .carriageReturn && k = .lineFeed then true
  else if b.last.isolates || k.isolates then false
  else if k.attaches || b.last = .prepend then true
  else
    match b.last, k with
    | .lead, .lead | .lead, .vowel | .lead, .openSyllable | .lead, .closedSyllable => true
    | .vowel, .vowel | .vowel, .trail | .openSyllable, .vowel | .openSyllable, .trail => true
    | .trail, .trail | .closedSyllable, .trail => true
    | _, .consonant => b.conjunct = .linked
    | _, .pictograph => b.picture = .joined
    | _, .regional => b.unpaired
    | _, _ => false

end Lookback

/-- Split the rest of a text, after the clusters `done`, last first, and the cluster that is being
read, given backwards. -/
def clustersOnto (done : List (List Char)) (b : Lookback) (cluster : List Char) :
    List Char → List (List Char)
  | [] => (cluster.reverse :: done).reverse
  | c :: cs =>
    let k := ClusterClass.of c
    if b.joins k then clustersOnto done (b.next k) (c :: cluster) cs
    else clustersOnto (cluster.reverse :: done) (b.next k) [c] cs

/-- The clusters of a text. -/
def clusters : List Char → List (List Char)
  | [] => []
  | c :: cs => clustersOnto [] (Lookback.start (ClusterClass.of c)) [c] cs

end ClauseLisp.Text
