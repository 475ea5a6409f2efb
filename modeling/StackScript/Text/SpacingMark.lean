import StackScript.Text.CharSet

/-!
# Spacing marks

The marks that take up room of their own and still belong to the character before them
(Unicode 17.0): vowel signs and the like, which the property Grapheme_Extend leaves out.
-/

namespace StackScript.Text

/-- The characters with the property Grapheme_Cluster_Break=SpacingMark. -/
def spacingMark : CharSet := ⟨[
  2307, 2308, 2363, 2364, 2366, 2369, 2377, 2381, 2382, 2384, 2434, 2436, 2495, 2497, 2503, 2505,
  2507, 2509, 2563, 2564, 2622, 2625, 2691, 2692, 2750, 2753, 2761, 2762, 2763, 2765, 2818, 2820,
  2880, 2881, 2887, 2889, 2891, 2893, 3007, 3008, 3009, 3011, 3014, 3017, 3018, 3021, 3073, 3076,
  3137, 3141, 3202, 3204, 3262, 3263, 3265, 3266, 3267, 3269, 3315, 3316, 3330, 3332, 3391, 3393,
  3398, 3401, 3402, 3405, 3458, 3460, 3536, 3538, 3544, 3551, 3570, 3572, 3635, 3636, 3763, 3764,
  3902, 3904, 3967, 3968, 4145, 4146, 4155, 4157, 4182, 4184, 4228, 4229, 6070, 6071, 6078, 6086,
  6087, 6089, 6435, 6439, 6441, 6444, 6448, 6450, 6451, 6457, 6681, 6683, 6741, 6742, 6743, 6744,
  6765, 6771, 6916, 6917, 6974, 6978, 7042, 7043, 7073, 7074, 7078, 7080, 7143, 7144, 7146, 7149,
  7150, 7151, 7204, 7212, 7220, 7222, 7393, 7394, 7415, 7416, 43043, 43045, 43047, 43048, 43136,
  43138, 43188, 43204, 43346, 43347, 43395, 43396, 43444, 43446, 43450, 43452, 43454, 43456,
  43567, 43569, 43571, 43573, 43597, 43598, 43755, 43756, 43758, 43760, 43765, 43766, 44003,
  44005, 44006, 44008, 44009, 44011, 44012, 44013, 69632, 69633, 69634, 69635, 69762, 69763,
  69808, 69811, 69815, 69817, 69932, 69933, 69957, 69959, 70018, 70019, 70067, 70070, 70079,
  70080, 70094, 70095, 70188, 70191, 70194, 70196, 70368, 70371, 70402, 70404, 70463, 70464,
  70465, 70469, 70471, 70473, 70475, 70477, 70498, 70500, 70585, 70587, 70602, 70603, 70604,
  70606, 70709, 70712, 70720, 70722, 70725, 70726, 70833, 70835, 70841, 70842, 70843, 70845,
  70846, 70847, 70849, 70850, 71088, 71090, 71096, 71100, 71102, 71103, 71216, 71219, 71227,
  71229, 71230, 71231, 71340, 71341, 71342, 71344, 71454, 71455, 71462, 71463, 71724, 71727,
  71736, 71737, 71985, 71990, 71991, 71993, 72000, 72001, 72002, 72003, 72145, 72148, 72156,
  72160, 72164, 72165, 72249, 72250, 72279, 72281, 72343, 72344, 72545, 72546, 72549, 72550,
  72551, 72552, 72751, 72752, 72766, 72767, 72873, 72874, 72881, 72882, 72884, 72885, 73098,
  73103, 73107, 73109, 73110, 73111, 73461, 73463, 73475, 73476, 73524, 73526, 73534, 73536,
  90410, 90413, 94033, 94088]⟩

end StackScript.Text
