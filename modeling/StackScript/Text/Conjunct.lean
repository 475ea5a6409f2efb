import StackScript.Text.CharSet

/-!
# Conjuncts

The consonants that a linking mark joins into one conjunct, and the marks that link them
(Unicode 17.0).
-/

namespace StackScript.Text

/-- The characters with the property Indic_Conjunct_Break=Consonant. -/
def conjunctConsonant : CharSet := ⟨[
  2325, 2362, 2392, 2400, 2424, 2432, 2453, 2473, 2474, 2481, 2482, 2483, 2486, 2490, 2524, 2526,
  2527, 2528, 2544, 2546, 2709, 2729, 2730, 2737, 2738, 2740, 2741, 2746, 2809, 2810, 2837, 2857,
  2858, 2865, 2866, 2868, 2869, 2874, 2908, 2910, 2911, 2912, 2929, 2930, 3093, 3113, 3114, 3130,
  3160, 3163, 3349, 3387, 4096, 4139, 4159, 4160, 4176, 4182, 4186, 4190, 4193, 4194, 4197, 4199,
  4206, 4209, 4213, 4226, 4238, 4239, 6016, 6068, 6688, 6741, 6923, 6925, 6931, 6964, 6981, 6989,
  7043, 7073, 7086, 7088, 7099, 7102, 43401, 43404, 43407, 43443, 43488, 43493, 43495, 43504,
  43514, 43519, 43616, 43632, 43633, 43636, 43642, 43643, 43646, 43648, 43744, 43755, 43968,
  43995, 68096, 68097, 68112, 68116, 68117, 68120, 68121, 68150, 69891, 69927, 69956, 69957,
  69959, 69960, 70528, 70538, 70539, 70540, 70542, 70543, 70544, 70582, 71936, 71943, 71945,
  71946, 71948, 71956, 71957, 71959, 71960, 71984, 72192, 72193, 72203, 72243, 72272, 72273,
  72284, 72324, 73476, 73489, 73490, 73524]⟩

/-- The characters with the property Indic_Conjunct_Break=Linker. -/
def conjunctLinker : CharSet := ⟨[
  2381, 2382, 2509, 2510, 2765, 2766, 2893, 2894, 3149, 3150, 3405, 3406, 4153, 4154, 6098, 6099,
  6752, 6753, 6980, 6981, 7083, 7084, 43456, 43457, 43766, 43767, 68159, 68160, 69939, 69940,
  70608, 70609, 71998, 71999, 72263, 72264, 72345, 72346, 73538, 73539]⟩

end StackScript.Text
