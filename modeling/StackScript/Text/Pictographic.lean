import StackScript.Text.CharSet

/-!
# Pictographs

The characters with the Unicode property Extended_Pictographic (Unicode 17.0): emoji, and the code
points that are kept for more of them.
-/

namespace StackScript.Text

/-- The characters with the property Extended_Pictographic. -/
def pictographic : CharSet := ⟨[
  169, 170, 174, 175, 8252, 8253, 8265, 8266, 8482, 8483, 8505, 8506, 8596, 8602, 8617, 8619,
  8986, 8988, 9000, 9001, 9167, 9168, 9193, 9204, 9208, 9211, 9410, 9411, 9642, 9644, 9654, 9655,
  9664, 9665, 9723, 9727, 9728, 9733, 9742, 9743, 9745, 9746, 9748, 9750, 9752, 9753, 9757, 9758,
  9760, 9761, 9762, 9764, 9766, 9767, 9770, 9771, 9774, 9776, 9784, 9787, 9792, 9793, 9794, 9795,
  9800, 9812, 9823, 9825, 9827, 9828, 9829, 9831, 9832, 9833, 9851, 9852, 9854, 9856, 9874, 9880,
  9881, 9882, 9883, 9885, 9888, 9890, 9895, 9896, 9898, 9900, 9904, 9906, 9917, 9919, 9924, 9926,
  9928, 9929, 9934, 9936, 9937, 9938, 9939, 9941, 9961, 9963, 9968, 9974, 9975, 9979, 9981, 9982,
  9986, 9987, 9989, 9990, 9992, 9998, 9999, 10000, 10002, 10003, 10004, 10005, 10006, 10007,
  10013, 10014, 10017, 10018, 10024, 10025, 10035, 10037, 10052, 10053, 10055, 10056, 10060,
  10061, 10062, 10063, 10067, 10070, 10071, 10072, 10083, 10085, 10133, 10136, 10145, 10146,
  10160, 10161, 10175, 10176, 10548, 10550, 11013, 11016, 11035, 11037, 11088, 11089, 11093,
  11094, 12336, 12337, 12349, 12350, 12951, 12952, 12953, 12954, 126980, 126981, 127020, 127024,
  127124, 127136, 127151, 127153, 127168, 127169, 127183, 127185, 127222, 127232, 127344, 127346,
  127358, 127360, 127374, 127375, 127377, 127387, 127406, 127462, 127489, 127504, 127514, 127515,
  127535, 127536, 127538, 127547, 127548, 127552, 127561, 127584, 127590, 127778, 127780, 127892,
  127894, 127896, 127897, 127900, 127902, 127985, 127987, 127990, 127991, 127995, 128000, 128254,
  128255, 128318, 128329, 128335, 128336, 128360, 128367, 128369, 128371, 128379, 128391, 128392,
  128394, 128398, 128400, 128401, 128405, 128407, 128420, 128422, 128424, 128425, 128433, 128435,
  128444, 128445, 128450, 128453, 128465, 128468, 128476, 128479, 128481, 128482, 128483, 128484,
  128488, 128489, 128495, 128496, 128499, 128500, 128506, 128592, 128640, 128710, 128715, 128723,
  128725, 128742, 128745, 128746, 128747, 128753, 128755, 128768, 128986, 129024, 129036, 129040,
  129096, 129104, 129114, 129120, 129160, 129168, 129198, 129200, 129212, 129216, 129218, 129232,
  129241, 129280, 129292, 129339, 129340, 129350, 129351, 129536, 129624, 129632, 129646, 129792,
  130048, 131070]⟩

end StackScript.Text
