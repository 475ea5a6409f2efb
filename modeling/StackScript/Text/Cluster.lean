import StackScript.Text.ClusterRole

/-!
# Clusters

A text falls into clusters, the units that a reader takes for one character: a letter with its marks,
a Korean syllable, a flag, a family of pictographs. The boundaries are those of the extended grapheme
clusters of the Unicode standard.

Whether a character joins the cluster before it depends on nothing but that cluster, so the text is
cut in one pass. Cutting loses nothing: the clusters make up the text (`flatten_clusters`).
-/

namespace StackScript.Text

/-! ### Boundaries -/

/-- Whether a character of one role and the next one of another stay together, whatever came before
them. -/
def ClusterRole.attaches : (before after : ClusterRole) → Bool
  | .carriageReturn, after => after = .lineFeed
  | .lineFeed, _ | .control, _ => false
  | _, .carriageReturn | _, .lineFeed | _, .control => false
  | _, .extend | _, .joiner | _, .spacing => true
  | .prepended, _ => true
  | .leading, after => after ∈ [.leading, .vowel, .openSyllable, .closedSyllable]
  | .openSyllable, after | .vowel, after => after ∈ [.vowel, .trailing]
  | .closedSyllable, after | .trailing, after => after = .trailing
  | _, _ => false

/-- Whether a mark may stand between the consonants of a conjunct. -/
def bindsConjunct (c : Char) : Bool :=
  match clusterRole c with
  | .joiner => true
  | .extend => c != '\u200c'
  | _ => false

/-- Whether a cluster, read from its end, ends in a consonant with marks of which one links it to the
next consonant. -/
def endsLinked (cluster : List Char) : Bool :=
  (cluster.takeWhile bindsConjunct).any conjunctLinker.contains
    && (cluster.dropWhile bindsConjunct).head?.map clusterRole == some .consonant

/-- Whether a cluster, read from its end, ends in a pictograph with marks and a joiner. -/
def endsJoined : (cluster : List Char) → Bool
  | [] => false
  | last :: earlier =>
    clusterRole last == .joiner
      && (earlier.dropWhile (clusterRole · == .extend)).head?.map clusterRole == some .pictograph

/-- Whether a cluster, read from its end, ends in a regional indicator without a partner. -/
def endsHalfFlag (cluster : List Char) : Bool :=
  (cluster.takeWhile (clusterRole · == .regional)).length % 2 == 1

/-- Whether a character joins the cluster before it, which is read from its end. -/
def joinsCluster (cluster : List Char) (c : Char) : Bool :=
  cluster.head?.any (fun last => (clusterRole last).attaches (clusterRole c))
    || match clusterRole c with
      | .consonant => endsLinked cluster
      | .pictograph => endsJoined cluster
      | .regional => endsHalfFlag cluster
      | _ => false

/-! ### Cutting -/

/-- The clusters of the characters `rest`, when they follow the unfinished cluster `cluster`, which is
read from its end. -/
def clustersFrom (cluster : List Char) : (rest : List Char) → List (List Char)
  | [] => [cluster.reverse]
  | c :: rest =>
    if joinsCluster cluster c then clustersFrom (c :: cluster) rest
    else cluster.reverse :: clustersFrom [c] rest

/-- The clusters of a text. -/
def clusters : List Char → List (List Char)
  | [] => []
  | c :: rest => clustersFrom [c] rest

theorem flatten_clustersFrom (cluster rest : List Char) :
    (clustersFrom cluster rest).flatten = cluster.reverse ++ rest := by
  induction rest generalizing cluster with
  | nil => simp [clustersFrom]
  | cons c rest ih =>
    rw [clustersFrom]
    split <;> simp [ih]

/-- The clusters make up the text. -/
theorem flatten_clusters (cs : List Char) : (clusters cs).flatten = cs := by
  cases cs with
  | nil => rfl
  | cons c rest => simp [clusters, flatten_clustersFrom]

end StackScript.Text
