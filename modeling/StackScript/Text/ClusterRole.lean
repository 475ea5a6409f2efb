import StackScript.Text.Conjunct
import StackScript.Text.GraphemeExtend
import StackScript.Text.Pictographic
import StackScript.Text.SpacingMark

/-!
# Roles in clusters

What a character does where clusters, the units that a reader takes for one character, meet: some
stand alone, some attach to what is before or after them, and some only combine with their like
(Unicode 17.0).
-/

namespace StackScript.Text

/-- The roles of characters at the boundaries of clusters. -/
inductive ClusterRole where
  | carriageReturn
  | lineFeed
  /-- Stands alone. -/
  | control
  /-- A mark on the character before it. -/
  | extend
  /-- The zero-width joiner, a mark that also joins pictographs. -/
  | joiner
  /-- A mark that takes up room. -/
  | spacing
  /-- Belongs to the character after it. -/
  | prepended
  /-- A regional indicator, half a flag. -/
  | regional
  /-- A consonant that begins a Korean syllable. -/
  | leading
  /-- A vowel of a Korean syllable. -/
  | vowel
  /-- A consonant that ends a Korean syllable. -/
  | trailing
  /-- A Korean syllable that ends in its vowel. -/
  | openSyllable
  /-- A Korean syllable that ends in a consonant. -/
  | closedSyllable
  | pictograph
  /-- A consonant that conjuncts are made of. -/
  | consonant
  | other
  deriving DecidableEq

/-- The characters that stand alone: line and paragraph separators, controls, most format characters
and the code points that are kept for more of them. -/
def clusterControl : CharSet := ⟨[
  0, 32, 127, 160, 173, 174, 1564, 1565, 6158, 6159, 8203, 8204, 8206, 8208, 8232, 8239, 8288,
  8304, 65279, 65280, 65520, 65532, 78896, 78912, 113824, 113828, 119155, 119163, 917504, 917536,
  917632, 917760, 918000, 921600]⟩

/-- The characters with the property Grapheme_Cluster_Break=Prepend. -/
def prepended : CharSet := ⟨[
  1536, 1542, 1757, 1758, 1807, 1808, 2192, 2194, 2274, 2275, 3406, 3407, 69821, 69822, 69837,
  69838, 70082, 70084, 70609, 70610, 71999, 72000, 72001, 72002, 72324, 72330, 73030, 73031,
  73474, 73475]⟩

/-- The modifiers of the skin tone, which are marks on a pictograph. -/
def skinTone : CharSet := ⟨[127995, 128000]⟩

/-- The regional indicators. -/
def regionalIndicator : CharSet := ⟨[127462, 127488]⟩

/-- The consonants that begin a Korean syllable. -/
def syllableLeading : CharSet := ⟨[4352, 4448, 43360, 43389]⟩

/-- The vowels of Korean syllables, and other vowels that combine like them. -/
def syllableVowel : CharSet := ⟨[4448, 4520, 55216, 55239, 93539, 93540, 93543, 93547]⟩

/-- The consonants that end a Korean syllable. -/
def syllableTrailing : CharSet := ⟨[4520, 4608, 55243, 55292]⟩

/-- The Korean syllables. -/
def syllable : CharSet := ⟨[44032, 55204]⟩

/-- Whether a Korean syllable ends in its vowel. The syllables come in groups of 28, of which the
first has no consonant at its end. -/
def isOpenSyllable (c : Char) : Bool :=
  (c.toNat - 44032) % 28 == 0

/-- The role of a character. -/
def clusterRole (c : Char) : ClusterRole :=
  if c = '\r' then .carriageReturn
  else if c = '\n' then .lineFeed
  else if clusterControl.contains c then .control
  else if c = '\u200d' then .joiner
  else if graphemeExtend.contains c || skinTone.contains c then .extend
  else if spacingMark.contains c then .spacing
  else if prepended.contains c then .prepended
  else if regionalIndicator.contains c then .regional
  else if syllableLeading.contains c then .leading
  else if syllableVowel.contains c then .vowel
  else if syllableTrailing.contains c then .trailing
  else if syllable.contains c then (if isOpenSyllable c then .openSyllable else .closedSyllable)
  else if pictographic.contains c then .pictograph
  else if conjunctConsonant.contains c then .consonant
  else .other

end StackScript.Text
