/-!
# Letters beyond ASCII

The character properties that word splitting and capitalization need, as runs of code points:

* which characters are letters or digits, which are upper case, which are lower case;
* the upper- and lower-case forms, by a distance where the form is one character and spelled out
  where it is several.

Text is turned into an identifier before it is split into words, so that its characters are ASCII,
with one exception: the verb of a route (`Name.ofFirstSegment`). The methods of a document are
ASCII, but the name of a route can be asked for with any text as its method, and the verb `é` is
capitalized as `É`. Only there are these tables read.

A run `(first, count, step)` stands for `first, first + step, …`, `count` code points in all.
-/

namespace ClientGen.Letter

/-- Runs `(first, count, step)` of the letters and digits beyond ASCII. -/
def alphanumericRuns : List (Nat × Nat × Nat) :=
  [(0xaa, 1, 1), (0xb2, 2, 1), (0xb5, 1, 1), (0xb9, 2, 1), (0xbc, 3, 1), (0xc0, 23, 1),
   (0xd8, 31, 1), (0xf8, 458, 1), (0x2c6, 12, 1), (0x2e0, 5, 1), (0x2ec, 2, 2), (0x345, 1, 1),
   (0x370, 5, 1), (0x376, 2, 1), (0x37a, 4, 1), (0x37f, 1, 1), (0x386, 1, 1), (0x388, 3, 1),
   (0x38c, 1, 1), (0x38e, 20, 1), (0x3a3, 83, 1), (0x3f7, 139, 1), (0x48a, 166, 1), (0x531, 38, 1),
   (0x559, 1, 1), (0x560, 41, 1), (0x5b0, 14, 1), (0x5bf, 1, 1), (0x5c1, 2, 1), (0x5c4, 2, 1),
   (0x5c7, 1, 1), (0x5d0, 27, 1), (0x5ef, 4, 1), (0x610, 11, 1), (0x620, 56, 1), (0x659, 17, 1),
   (0x66e, 102, 1), (0x6d5, 8, 1), (0x6e1, 8, 1), (0x6ed, 16, 1), (0x6ff, 1, 1), (0x710, 48, 1),
   (0x74d, 101, 1), (0x7c0, 43, 1), (0x7f4, 2, 1), (0x7fa, 1, 1), (0x800, 24, 1), (0x81a, 19, 1),
   (0x840, 25, 1), (0x860, 11, 1), (0x870, 24, 1), (0x889, 6, 1), (0x8a0, 42, 1), (0x8d4, 12, 1),
   (0x8e3, 7, 1), (0x8f0, 76, 1), (0x93d, 16, 1), (0x94e, 3, 1), (0x955, 15, 1), (0x966, 10, 1),
   (0x971, 19, 1), (0x985, 8, 1), (0x98f, 2, 1), (0x993, 22, 1), (0x9aa, 7, 1), (0x9b2, 1, 1),
   (0x9b6, 4, 1), (0x9bd, 8, 1), (0x9c7, 2, 1), (0x9cb, 2, 1), (0x9ce, 1, 1), (0x9d7, 1, 1),
   (0x9dc, 2, 1), (0x9df, 5, 1), (0x9e6, 12, 1), (0x9f4, 6, 1), (0x9fc, 1, 1), (0xa01, 3, 1),
   (0xa05, 6, 1), (0xa0f, 2, 1), (0xa13, 22, 1), (0xa2a, 7, 1), (0xa32, 2, 1), (0xa35, 2, 1),
   (0xa38, 2, 1), (0xa3e, 5, 1), (0xa47, 2, 1), (0xa4b, 2, 1), (0xa51, 1, 1), (0xa59, 4, 1),
   (0xa5e, 1, 1), (0xa66, 16, 1), (0xa81, 3, 1), (0xa85, 9, 1), (0xa8f, 3, 1), (0xa93, 22, 1),
   (0xaaa, 7, 1), (0xab2, 2, 1), (0xab5, 5, 1), (0xabd, 9, 1), (0xac7, 3, 1), (0xacb, 2, 1),
   (0xad0, 1, 1), (0xae0, 4, 1), (0xae6, 10, 1), (0xaf9, 4, 1), (0xb01, 3, 1), (0xb05, 8, 1),
   (0xb0f, 2, 1), (0xb13, 22, 1), (0xb2a, 7, 1), (0xb32, 2, 1), (0xb35, 5, 1), (0xb3d, 8, 1),
   (0xb47, 2, 1), (0xb4b, 2, 1), (0xb56, 2, 1), (0xb5c, 2, 1), (0xb5f, 5, 1), (0xb66, 10, 1),
   (0xb71, 7, 1), (0xb82, 2, 1), (0xb85, 6, 1), (0xb8e, 3, 1), (0xb92, 4, 1), (0xb99, 2, 1),
   (0xb9c, 1, 1), (0xb9e, 2, 1), (0xba3, 2, 1), (0xba8, 3, 1), (0xbae, 12, 1), (0xbbe, 5, 1),
   (0xbc6, 3, 1), (0xbca, 3, 1), (0xbd0, 1, 1), (0xbd7, 1, 1), (0xbe6, 13, 1), (0xc00, 13, 1),
   (0xc0e, 3, 1), (0xc12, 23, 1), (0xc2a, 16, 1), (0xc3d, 8, 1), (0xc46, 3, 1), (0xc4a, 3, 1),
   (0xc55, 2, 1), (0xc58, 3, 1), (0xc5d, 1, 1), (0xc60, 4, 1), (0xc66, 10, 1), (0xc78, 7, 1),
   (0xc80, 4, 1), (0xc85, 8, 1), (0xc8e, 3, 1), (0xc92, 23, 1), (0xcaa, 10, 1), (0xcb5, 5, 1),
   (0xcbd, 8, 1), (0xcc6, 3, 1), (0xcca, 3, 1), (0xcd5, 2, 1), (0xcdd, 2, 1), (0xce0, 4, 1),
   (0xce6, 10, 1), (0xcf1, 3, 1), (0xd00, 13, 1), (0xd0e, 3, 1), (0xd12, 41, 1), (0xd3d, 8, 1),
   (0xd46, 3, 1), (0xd4a, 3, 1), (0xd4e, 1, 1), (0xd54, 16, 1), (0xd66, 19, 1), (0xd7a, 6, 1),
   (0xd81, 3, 1), (0xd85, 18, 1), (0xd9a, 24, 1), (0xdb3, 9, 1), (0xdbd, 1, 1), (0xdc0, 7, 1),
   (0xdcf, 6, 1), (0xdd6, 1, 1), (0xdd8, 8, 1), (0xde6, 10, 1), (0xdf2, 2, 1), (0xe01, 58, 1),
   (0xe40, 7, 1), (0xe4d, 1, 1), (0xe50, 10, 1), (0xe81, 2, 1), (0xe84, 1, 1), (0xe86, 5, 1),
   (0xe8c, 24, 1), (0xea5, 1, 1), (0xea7, 19, 1), (0xebb, 3, 1), (0xec0, 5, 1), (0xec6, 1, 1),
   (0xecd, 1, 1), (0xed0, 10, 1), (0xedc, 4, 1), (0xf00, 1, 1), (0xf20, 20, 1), (0xf40, 8, 1),
   (0xf49, 36, 1), (0xf71, 19, 1), (0xf88, 16, 1), (0xf99, 36, 1), (0x1000, 55, 1), (0x1038, 1, 1),
   (0x103b, 15, 1), (0x1050, 78, 1), (0x10a0, 38, 1), (0x10c7, 1, 1), (0x10cd, 1, 1),
   (0x10d0, 43, 1), (0x10fc, 333, 1), (0x124a, 4, 1), (0x1250, 7, 1), (0x1258, 1, 1),
   (0x125a, 4, 1), (0x1260, 41, 1), (0x128a, 4, 1), (0x1290, 33, 1), (0x12b2, 4, 1),
   (0x12b8, 7, 1), (0x12c0, 1, 1), (0x12c2, 4, 1), (0x12c8, 15, 1), (0x12d8, 57, 1),
   (0x1312, 4, 1), (0x1318, 67, 1), (0x1369, 20, 1), (0x1380, 16, 1), (0x13a0, 86, 1),
   (0x13f8, 6, 1), (0x1401, 620, 1), (0x166f, 17, 1), (0x1681, 26, 1), (0x16a0, 75, 1),
   (0x16ee, 11, 1), (0x1700, 20, 1), (0x171f, 21, 1), (0x1740, 20, 1), (0x1760, 13, 1),
   (0x176e, 3, 1), (0x1772, 2, 1), (0x1780, 52, 1), (0x17b6, 19, 1), (0x17d7, 1, 1),
   (0x17dc, 1, 1), (0x17e0, 10, 1), (0x17f0, 10, 1), (0x1810, 10, 1), (0x1820, 89, 1),
   (0x1880, 43, 1), (0x18b0, 70, 1), (0x1900, 31, 1), (0x1920, 12, 1), (0x1930, 9, 1),
   (0x1946, 40, 1), (0x1970, 5, 1), (0x1980, 44, 1), (0x19b0, 26, 1), (0x19d0, 11, 1),
   (0x1a00, 28, 1), (0x1a20, 63, 1), (0x1a61, 20, 1), (0x1a80, 10, 1), (0x1a90, 10, 1),
   (0x1aa7, 1, 1), (0x1abf, 2, 1), (0x1acc, 3, 1), (0x1b00, 52, 1), (0x1b35, 15, 1),
   (0x1b45, 8, 1), (0x1b50, 10, 1), (0x1b80, 42, 1), (0x1bac, 58, 1), (0x1be7, 11, 1),
   (0x1c00, 55, 1), (0x1c40, 10, 1), (0x1c4d, 49, 1), (0x1c80, 9, 1), (0x1c90, 43, 1),
   (0x1cbd, 3, 1), (0x1ce9, 4, 1), (0x1cee, 6, 1), (0x1cf5, 2, 1), (0x1cfa, 1, 1),
   (0x1d00, 192, 1), (0x1de7, 14, 1), (0x1e00, 278, 1), (0x1f18, 6, 1), (0x1f20, 38, 1),
   (0x1f48, 6, 1), (0x1f50, 8, 1), (0x1f59, 4, 2), (0x1f60, 30, 1), (0x1f80, 53, 1),
   (0x1fb6, 7, 1), (0x1fbe, 1, 1), (0x1fc2, 3, 1), (0x1fc6, 7, 1), (0x1fd0, 4, 1), (0x1fd6, 6, 1),
   (0x1fe0, 13, 1), (0x1ff2, 3, 1), (0x1ff6, 7, 1), (0x2070, 2, 1), (0x2074, 6, 1),
   (0x207f, 11, 1), (0x2090, 13, 1), (0x2102, 1, 1), (0x2107, 1, 1), (0x210a, 10, 1),
   (0x2115, 1, 1), (0x2119, 5, 1), (0x2124, 4, 2), (0x212b, 3, 1), (0x212f, 11, 1), (0x213c, 4, 1),
   (0x2145, 5, 1), (0x214e, 1, 1), (0x2150, 58, 1), (0x2460, 60, 1), (0x24b6, 74, 1),
   (0x2776, 30, 1), (0x2c00, 229, 1), (0x2ceb, 4, 1), (0x2cf2, 2, 1), (0x2cfd, 1, 1),
   (0x2d00, 38, 1), (0x2d27, 1, 1), (0x2d2d, 1, 1), (0x2d30, 56, 1), (0x2d6f, 1, 1),
   (0x2d80, 23, 1), (0x2da0, 7, 1), (0x2da8, 7, 1), (0x2db0, 7, 1), (0x2db8, 7, 1), (0x2dc0, 7, 1),
   (0x2dc8, 7, 1), (0x2dd0, 7, 1), (0x2dd8, 7, 1), (0x2de0, 32, 1), (0x2e2f, 1, 1), (0x3005, 3, 1),
   (0x3021, 9, 1), (0x3031, 5, 1), (0x3038, 5, 1), (0x3041, 86, 1), (0x309d, 3, 1),
   (0x30a1, 90, 1), (0x30fc, 4, 1), (0x3105, 43, 1), (0x3131, 94, 1), (0x3192, 4, 1),
   (0x31a0, 32, 1), (0x31f0, 16, 1), (0x3220, 10, 1), (0x3248, 8, 1), (0x3251, 15, 1),
   (0x3280, 10, 1), (0x32b1, 15, 1), (0x3400, 6592, 1), (0x4e00, 22157, 1), (0xa4d0, 46, 1),
   (0xa500, 269, 1), (0xa610, 28, 1), (0xa640, 47, 1), (0xa674, 8, 1), (0xa67f, 113, 1),
   (0xa717, 9, 1), (0xa722, 103, 1), (0xa78b, 64, 1), (0xa7d0, 2, 1), (0xa7d3, 1, 1),
   (0xa7d5, 5, 1), (0xa7f2, 20, 1), (0xa807, 33, 1), (0xa830, 6, 1), (0xa840, 52, 1),
   (0xa880, 68, 1), (0xa8c5, 1, 1), (0xa8d0, 10, 1), (0xa8f2, 6, 1), (0xa8fb, 1, 1),
   (0xa8fd, 46, 1), (0xa930, 35, 1), (0xa960, 29, 1), (0xa980, 51, 1), (0xa9b4, 12, 1),
   (0xa9cf, 11, 1), (0xa9e0, 31, 1), (0xaa00, 55, 1), (0xaa40, 14, 1), (0xaa50, 10, 1),
   (0xaa60, 23, 1), (0xaa7a, 69, 1), (0xaac0, 2, 2), (0xaadb, 3, 1), (0xaae0, 16, 1),
   (0xaaf2, 4, 1), (0xab01, 6, 1), (0xab09, 6, 1), (0xab11, 6, 1), (0xab20, 7, 1), (0xab28, 7, 1),
   (0xab30, 43, 1), (0xab5c, 14, 1), (0xab70, 123, 1), (0xabf0, 10, 1), (0xac00, 11172, 1),
   (0xd7b0, 23, 1), (0xd7cb, 49, 1), (0xf900, 366, 1), (0xfa70, 106, 1), (0xfb00, 7, 1),
   (0xfb13, 5, 1), (0xfb1d, 12, 1), (0xfb2a, 13, 1), (0xfb38, 5, 1), (0xfb3e, 1, 1),
   (0xfb40, 2, 1), (0xfb43, 2, 1), (0xfb46, 108, 1), (0xfbd3, 363, 1), (0xfd50, 64, 1),
   (0xfd92, 54, 1), (0xfdf0, 12, 1), (0xfe70, 5, 1), (0xfe76, 135, 1), (0xff10, 10, 1),
   (0xff21, 26, 1), (0xff41, 26, 1), (0xff66, 89, 1), (0xffc2, 6, 1), (0xffca, 6, 1),
   (0xffd2, 6, 1), (0xffda, 3, 1), (0x10000, 12, 1), (0x1000d, 26, 1), (0x10028, 19, 1),
   (0x1003c, 2, 1), (0x1003f, 15, 1), (0x10050, 14, 1), (0x10080, 123, 1), (0x10107, 45, 1),
   (0x10140, 57, 1), (0x1018a, 2, 1), (0x10280, 29, 1), (0x102a0, 49, 1), (0x102e1, 27, 1),
   (0x10300, 36, 1), (0x1032d, 30, 1), (0x10350, 43, 1), (0x10380, 30, 1), (0x103a0, 36, 1),
   (0x103c8, 8, 1), (0x103d1, 5, 1), (0x10400, 158, 1), (0x104a0, 10, 1), (0x104b0, 36, 1),
   (0x104d8, 36, 1), (0x10500, 40, 1), (0x10530, 52, 1), (0x10570, 11, 1), (0x1057c, 15, 1),
   (0x1058c, 7, 1), (0x10594, 2, 1), (0x10597, 11, 1), (0x105a3, 15, 1), (0x105b3, 7, 1),
   (0x105bb, 2, 1), (0x10600, 311, 1), (0x10740, 22, 1), (0x10760, 8, 1), (0x10780, 6, 1),
   (0x10787, 42, 1), (0x107b2, 9, 1), (0x10800, 6, 1), (0x10808, 1, 1), (0x1080a, 44, 1),
   (0x10837, 2, 1), (0x1083c, 1, 1), (0x1083f, 23, 1), (0x10858, 31, 1), (0x10879, 38, 1),
   (0x108a7, 9, 1), (0x108e0, 19, 1), (0x108f4, 2, 1), (0x108fb, 33, 1), (0x10920, 26, 1),
   (0x10980, 56, 1), (0x109bc, 20, 1), (0x109d2, 50, 1), (0x10a05, 2, 1), (0x10a0c, 8, 1),
   (0x10a15, 3, 1), (0x10a19, 29, 1), (0x10a40, 9, 1), (0x10a60, 31, 1), (0x10a80, 32, 1),
   (0x10ac0, 8, 1), (0x10ac9, 28, 1), (0x10aeb, 5, 1), (0x10b00, 54, 1), (0x10b40, 22, 1),
   (0x10b58, 27, 1), (0x10b78, 26, 1), (0x10ba9, 7, 1), (0x10c00, 73, 1), (0x10c80, 51, 1),
   (0x10cc0, 51, 1), (0x10cfa, 46, 1), (0x10d30, 10, 1), (0x10e60, 31, 1), (0x10e80, 42, 1),
   (0x10eab, 2, 1), (0x10eb0, 2, 1), (0x10f00, 40, 1), (0x10f30, 22, 1), (0x10f51, 4, 1),
   (0x10f70, 18, 1), (0x10fb0, 28, 1), (0x10fe0, 23, 1), (0x11000, 70, 1), (0x11052, 30, 1),
   (0x11071, 5, 1), (0x11080, 57, 1), (0x110c2, 1, 1), (0x110d0, 25, 1), (0x110f0, 10, 1),
   (0x11100, 51, 1), (0x11136, 10, 1), (0x11144, 4, 1), (0x11150, 35, 1), (0x11176, 1, 1),
   (0x11180, 64, 1), (0x111c1, 4, 1), (0x111ce, 13, 1), (0x111dc, 1, 1), (0x111e1, 20, 1),
   (0x11200, 18, 1), (0x11213, 34, 1), (0x11237, 1, 1), (0x1123e, 4, 1), (0x11280, 7, 1),
   (0x11288, 1, 1), (0x1128a, 4, 1), (0x1128f, 15, 1), (0x1129f, 10, 1), (0x112b0, 57, 1),
   (0x112f0, 10, 1), (0x11300, 4, 1), (0x11305, 8, 1), (0x1130f, 2, 1), (0x11313, 22, 1),
   (0x1132a, 7, 1), (0x11332, 2, 1), (0x11335, 5, 1), (0x1133d, 8, 1), (0x11347, 2, 1),
   (0x1134b, 2, 1), (0x11350, 1, 1), (0x11357, 1, 1), (0x1135d, 7, 1), (0x11400, 66, 1),
   (0x11443, 3, 1), (0x11447, 4, 1), (0x11450, 10, 1), (0x1145f, 3, 1), (0x11480, 66, 1),
   (0x114c4, 2, 1), (0x114c7, 1, 1), (0x114d0, 10, 1), (0x11580, 54, 1), (0x115b8, 7, 1),
   (0x115d8, 6, 1), (0x11600, 63, 1), (0x11640, 1, 1), (0x11644, 1, 1), (0x11650, 10, 1),
   (0x11680, 54, 1), (0x116b8, 1, 1), (0x116c0, 10, 1), (0x11700, 27, 1), (0x1171d, 14, 1),
   (0x11730, 12, 1), (0x11740, 7, 1), (0x11800, 57, 1), (0x118a0, 83, 1), (0x118ff, 8, 1),
   (0x11909, 1, 1), (0x1190c, 8, 1), (0x11915, 2, 1), (0x11918, 30, 1), (0x11937, 2, 1),
   (0x1193b, 2, 1), (0x1193f, 4, 1), (0x11950, 10, 1), (0x119a0, 8, 1), (0x119aa, 46, 1),
   (0x119da, 6, 1), (0x119e1, 1, 1), (0x119e3, 2, 1), (0x11a00, 51, 1), (0x11a35, 10, 1),
   (0x11a50, 72, 1), (0x11a9d, 1, 1), (0x11ab0, 73, 1), (0x11c00, 9, 1), (0x11c0a, 45, 1),
   (0x11c38, 7, 1), (0x11c40, 1, 1), (0x11c50, 29, 1), (0x11c72, 30, 1), (0x11c92, 22, 1),
   (0x11ca9, 14, 1), (0x11d00, 7, 1), (0x11d08, 2, 1), (0x11d0b, 44, 1), (0x11d3a, 1, 1),
   (0x11d3c, 2, 1), (0x11d3f, 3, 1), (0x11d43, 1, 1), (0x11d46, 2, 1), (0x11d50, 10, 1),
   (0x11d60, 6, 1), (0x11d67, 2, 1), (0x11d6a, 37, 1), (0x11d90, 2, 1), (0x11d93, 4, 1),
   (0x11d98, 1, 1), (0x11da0, 10, 1), (0x11ee0, 23, 1), (0x11f00, 17, 1), (0x11f12, 41, 1),
   (0x11f3e, 3, 1), (0x11f50, 10, 1), (0x11fb0, 1, 1), (0x11fc0, 21, 1), (0x12000, 922, 1),
   (0x12400, 111, 1), (0x12480, 196, 1), (0x12f90, 97, 1), (0x13000, 1072, 1), (0x13441, 6, 1),
   (0x14400, 583, 1), (0x16800, 569, 1), (0x16a40, 31, 1), (0x16a60, 10, 1), (0x16a70, 79, 1),
   (0x16ac0, 10, 1), (0x16ad0, 30, 1), (0x16b00, 48, 1), (0x16b40, 4, 1), (0x16b50, 10, 1),
   (0x16b5b, 7, 1), (0x16b63, 21, 1), (0x16b7d, 19, 1), (0x16e40, 87, 1), (0x16f00, 75, 1),
   (0x16f4f, 57, 1), (0x16f8f, 17, 1), (0x16fe0, 2, 1), (0x16fe3, 1, 1), (0x16ff0, 2, 1),
   (0x17000, 6136, 1), (0x18800, 1238, 1), (0x18d00, 9, 1), (0x1aff0, 4, 1), (0x1aff5, 7, 1),
   (0x1affd, 2, 1), (0x1b000, 291, 1), (0x1b132, 1, 1), (0x1b150, 3, 1), (0x1b155, 1, 1),
   (0x1b164, 4, 1), (0x1b170, 396, 1), (0x1bc00, 107, 1), (0x1bc70, 13, 1), (0x1bc80, 9, 1),
   (0x1bc90, 10, 1), (0x1bc9e, 1, 1), (0x1d2c0, 20, 1), (0x1d2e0, 20, 1), (0x1d360, 25, 1),
   (0x1d400, 85, 1), (0x1d456, 71, 1), (0x1d49e, 2, 1), (0x1d4a2, 1, 1), (0x1d4a5, 2, 1),
   (0x1d4a9, 4, 1), (0x1d4ae, 12, 1), (0x1d4bb, 1, 1), (0x1d4bd, 7, 1), (0x1d4c5, 65, 1),
   (0x1d507, 4, 1), (0x1d50d, 8, 1), (0x1d516, 7, 1), (0x1d51e, 28, 1), (0x1d53b, 4, 1),
   (0x1d540, 5, 1), (0x1d546, 1, 1), (0x1d54a, 7, 1), (0x1d552, 340, 1), (0x1d6a8, 25, 1),
   (0x1d6c2, 25, 1), (0x1d6dc, 31, 1), (0x1d6fc, 25, 1), (0x1d716, 31, 1), (0x1d736, 25, 1),
   (0x1d750, 31, 1), (0x1d770, 25, 1), (0x1d78a, 31, 1), (0x1d7aa, 25, 1), (0x1d7c4, 8, 1),
   (0x1d7ce, 50, 1), (0x1df00, 31, 1), (0x1df25, 6, 1), (0x1e000, 7, 1), (0x1e008, 17, 1),
   (0x1e01b, 7, 1), (0x1e023, 2, 1), (0x1e026, 5, 1), (0x1e030, 62, 1), (0x1e08f, 1, 1),
   (0x1e100, 45, 1), (0x1e137, 7, 1), (0x1e140, 10, 1), (0x1e14e, 1, 1), (0x1e290, 30, 1),
   (0x1e2c0, 44, 1), (0x1e2f0, 10, 1), (0x1e4d0, 28, 1), (0x1e4f0, 10, 1), (0x1e7e0, 7, 1),
   (0x1e7e8, 4, 1), (0x1e7ed, 2, 1), (0x1e7f0, 15, 1), (0x1e800, 197, 1), (0x1e8c7, 9, 1),
   (0x1e900, 68, 1), (0x1e947, 1, 1), (0x1e94b, 1, 1), (0x1e950, 10, 1), (0x1ec71, 59, 1),
   (0x1ecad, 3, 1), (0x1ecb1, 4, 1), (0x1ed01, 45, 1), (0x1ed2f, 15, 1), (0x1ee00, 4, 1),
   (0x1ee05, 27, 1), (0x1ee21, 2, 1), (0x1ee24, 1, 1), (0x1ee27, 1, 1), (0x1ee29, 10, 1),
   (0x1ee34, 4, 1), (0x1ee39, 2, 2), (0x1ee42, 1, 1), (0x1ee47, 4, 2), (0x1ee4e, 2, 1),
   (0x1ee51, 2, 1), (0x1ee54, 1, 1), (0x1ee57, 6, 2), (0x1ee62, 2, 2), (0x1ee67, 4, 1),
   (0x1ee6c, 7, 1), (0x1ee74, 4, 1), (0x1ee79, 4, 1), (0x1ee7e, 1, 1), (0x1ee80, 10, 1),
   (0x1ee8b, 17, 1), (0x1eea1, 3, 1), (0x1eea5, 5, 1), (0x1eeab, 17, 1), (0x1f100, 13, 1),
   (0x1f130, 26, 1), (0x1f150, 26, 1), (0x1f170, 26, 1), (0x1fbf0, 10, 1), (0x20000, 42720, 1),
   (0x2a700, 4154, 1), (0x2b740, 222, 1), (0x2b820, 5762, 1), (0x2ceb0, 7473, 1),
   (0x2f800, 542, 1), (0x30000, 4939, 1), (0x31350, 4192, 1)]

/-- Runs `(first, count, step)` of the upper-case letters beyond ASCII. -/
def upperRuns : List (Nat × Nat × Nat) :=
  [(0xc0, 23, 1), (0xd8, 7, 1), (0x100, 28, 2), (0x139, 8, 2), (0x14a, 24, 2), (0x179, 3, 2),
   (0x181, 2, 1), (0x184, 1, 1), (0x186, 2, 1), (0x189, 3, 1), (0x18e, 4, 1), (0x193, 2, 1),
   (0x196, 3, 1), (0x19c, 2, 1), (0x19f, 2, 1), (0x1a2, 3, 2), (0x1a7, 2, 2), (0x1ac, 1, 1),
   (0x1ae, 2, 1), (0x1b1, 3, 1), (0x1b5, 1, 1), (0x1b7, 2, 1), (0x1bc, 1, 1), (0x1c4, 1, 1),
   (0x1c7, 1, 1), (0x1ca, 1, 1), (0x1cd, 8, 2), (0x1de, 9, 2), (0x1f1, 1, 1), (0x1f4, 1, 1),
   (0x1f6, 3, 1), (0x1fa, 29, 2), (0x23a, 2, 1), (0x23d, 2, 1), (0x241, 1, 1), (0x243, 4, 1),
   (0x248, 4, 2), (0x370, 2, 2), (0x376, 1, 1), (0x37f, 1, 1), (0x386, 1, 1), (0x388, 3, 1),
   (0x38c, 1, 1), (0x38e, 2, 1), (0x391, 17, 1), (0x3a3, 9, 1), (0x3cf, 1, 1), (0x3d2, 3, 1),
   (0x3d8, 12, 2), (0x3f4, 1, 1), (0x3f7, 1, 1), (0x3f9, 2, 1), (0x3fd, 51, 1), (0x460, 17, 2),
   (0x48a, 28, 2), (0x4c1, 7, 2), (0x4d0, 48, 2), (0x531, 38, 1), (0x10a0, 38, 1), (0x10c7, 1, 1),
   (0x10cd, 1, 1), (0x13a0, 86, 1), (0x1c90, 43, 1), (0x1cbd, 3, 1), (0x1e00, 75, 2),
   (0x1e9e, 49, 2), (0x1f08, 8, 1), (0x1f18, 6, 1), (0x1f28, 8, 1), (0x1f38, 8, 1), (0x1f48, 6, 1),
   (0x1f59, 4, 2), (0x1f68, 8, 1), (0x1fb8, 4, 1), (0x1fc8, 4, 1), (0x1fd8, 4, 1), (0x1fe8, 5, 1),
   (0x1ff8, 4, 1), (0x2102, 1, 1), (0x2107, 1, 1), (0x210b, 3, 1), (0x2110, 3, 1), (0x2115, 1, 1),
   (0x2119, 5, 1), (0x2124, 4, 2), (0x212b, 3, 1), (0x2130, 4, 1), (0x213e, 2, 1), (0x2145, 1, 1),
   (0x2160, 16, 1), (0x2183, 1, 1), (0x24b6, 26, 1), (0x2c00, 48, 1), (0x2c60, 1, 1),
   (0x2c62, 3, 1), (0x2c67, 4, 2), (0x2c6e, 3, 1), (0x2c72, 1, 1), (0x2c75, 1, 1), (0x2c7e, 3, 1),
   (0x2c82, 49, 2), (0x2ceb, 2, 2), (0x2cf2, 1, 1), (0xa640, 23, 2), (0xa680, 14, 2),
   (0xa722, 7, 2), (0xa732, 31, 2), (0xa779, 3, 2), (0xa77e, 5, 2), (0xa78b, 2, 2), (0xa790, 2, 2),
   (0xa796, 11, 2), (0xa7ab, 4, 1), (0xa7b0, 5, 1), (0xa7b6, 8, 2), (0xa7c5, 3, 1), (0xa7c9, 1, 1),
   (0xa7d0, 1, 1), (0xa7d6, 2, 2), (0xa7f5, 1, 1), (0xff21, 26, 1), (0x10400, 40, 1),
   (0x104b0, 36, 1), (0x10570, 11, 1), (0x1057c, 15, 1), (0x1058c, 7, 1), (0x10594, 2, 1),
   (0x10c80, 51, 1), (0x118a0, 32, 1), (0x16e40, 32, 1), (0x1d400, 26, 1), (0x1d434, 26, 1),
   (0x1d468, 26, 1), (0x1d49c, 1, 1), (0x1d49e, 2, 1), (0x1d4a2, 1, 1), (0x1d4a5, 2, 1),
   (0x1d4a9, 4, 1), (0x1d4ae, 8, 1), (0x1d4d0, 26, 1), (0x1d504, 2, 1), (0x1d507, 4, 1),
   (0x1d50d, 8, 1), (0x1d516, 7, 1), (0x1d538, 2, 1), (0x1d53b, 4, 1), (0x1d540, 5, 1),
   (0x1d546, 1, 1), (0x1d54a, 7, 1), (0x1d56c, 26, 1), (0x1d5a0, 26, 1), (0x1d5d4, 26, 1),
   (0x1d608, 26, 1), (0x1d63c, 26, 1), (0x1d670, 26, 1), (0x1d6a8, 25, 1), (0x1d6e2, 25, 1),
   (0x1d71c, 25, 1), (0x1d756, 25, 1), (0x1d790, 25, 1), (0x1d7ca, 1, 1), (0x1e900, 34, 1),
   (0x1f130, 26, 1), (0x1f150, 26, 1), (0x1f170, 26, 1)]

/-- Runs `(first, count, step)` of the lower-case letters beyond ASCII. -/
def lowerRuns : List (Nat × Nat × Nat) :=
  [(0xaa, 1, 1), (0xb5, 1, 1), (0xba, 1, 1), (0xdf, 24, 1), (0xf8, 8, 1), (0x101, 28, 2),
   (0x138, 9, 2), (0x149, 24, 2), (0x17a, 3, 2), (0x17f, 2, 1), (0x183, 2, 2), (0x188, 1, 1),
   (0x18c, 2, 1), (0x192, 1, 1), (0x195, 1, 1), (0x199, 3, 1), (0x19e, 1, 1), (0x1a1, 3, 2),
   (0x1a8, 1, 1), (0x1aa, 2, 1), (0x1ad, 1, 1), (0x1b0, 1, 1), (0x1b4, 2, 2), (0x1b9, 2, 1),
   (0x1bd, 3, 1), (0x1c6, 1, 1), (0x1c9, 1, 1), (0x1cc, 9, 2), (0x1dd, 10, 2), (0x1f0, 1, 1),
   (0x1f3, 2, 2), (0x1f9, 30, 2), (0x234, 6, 1), (0x23c, 1, 1), (0x23f, 2, 1), (0x242, 1, 1),
   (0x247, 5, 2), (0x250, 68, 1), (0x295, 36, 1), (0x2c0, 2, 1), (0x2e0, 5, 1), (0x345, 1, 1),
   (0x371, 2, 2), (0x377, 1, 1), (0x37a, 4, 1), (0x390, 1, 1), (0x3ac, 35, 1), (0x3d0, 2, 1),
   (0x3d5, 3, 1), (0x3d9, 12, 2), (0x3f0, 4, 1), (0x3f5, 1, 1), (0x3f8, 1, 1), (0x3fb, 2, 1),
   (0x430, 48, 1), (0x461, 17, 2), (0x48b, 27, 2), (0x4c2, 7, 2), (0x4cf, 49, 2), (0x560, 41, 1),
   (0x10d0, 43, 1), (0x10fc, 4, 1), (0x13f8, 6, 1), (0x1c80, 9, 1), (0x1d00, 192, 1),
   (0x1e01, 75, 2), (0x1e96, 8, 1), (0x1e9f, 49, 2), (0x1f00, 8, 1), (0x1f10, 6, 1),
   (0x1f20, 8, 1), (0x1f30, 8, 1), (0x1f40, 6, 1), (0x1f50, 8, 1), (0x1f60, 8, 1), (0x1f70, 14, 1),
   (0x1f80, 8, 1), (0x1f90, 8, 1), (0x1fa0, 8, 1), (0x1fb0, 5, 1), (0x1fb6, 2, 1), (0x1fbe, 1, 1),
   (0x1fc2, 3, 1), (0x1fc6, 2, 1), (0x1fd0, 4, 1), (0x1fd6, 2, 1), (0x1fe0, 8, 1), (0x1ff2, 3, 1),
   (0x1ff6, 2, 1), (0x2071, 1, 1), (0x207f, 1, 1), (0x2090, 13, 1), (0x210a, 1, 1), (0x210e, 2, 1),
   (0x2113, 1, 1), (0x212f, 1, 1), (0x2134, 1, 1), (0x2139, 1, 1), (0x213c, 2, 1), (0x2146, 4, 1),
   (0x214e, 1, 1), (0x2170, 16, 1), (0x2184, 1, 1), (0x24d0, 26, 1), (0x2c30, 48, 1),
   (0x2c61, 1, 1), (0x2c65, 2, 1), (0x2c68, 3, 2), (0x2c71, 1, 1), (0x2c73, 2, 1), (0x2c76, 8, 1),
   (0x2c81, 50, 2), (0x2ce4, 1, 1), (0x2cec, 2, 2), (0x2cf3, 1, 1), (0x2d00, 38, 1),
   (0x2d27, 1, 1), (0x2d2d, 1, 1), (0xa641, 23, 2), (0xa681, 14, 2), (0xa69c, 2, 1),
   (0xa723, 7, 2), (0xa730, 2, 1), (0xa733, 31, 2), (0xa770, 9, 1), (0xa77a, 2, 2), (0xa77f, 5, 2),
   (0xa78c, 2, 2), (0xa791, 1, 1), (0xa793, 3, 1), (0xa797, 10, 2), (0xa7af, 1, 1), (0xa7b5, 8, 2),
   (0xa7c8, 2, 2), (0xa7d1, 5, 2), (0xa7f2, 3, 1), (0xa7f6, 1, 1), (0xa7f8, 3, 1), (0xab30, 43, 1),
   (0xab5c, 14, 1), (0xab70, 80, 1), (0xfb00, 7, 1), (0xfb13, 5, 1), (0xff41, 26, 1),
   (0x10428, 40, 1), (0x104d8, 36, 1), (0x10597, 11, 1), (0x105a3, 15, 1), (0x105b3, 7, 1),
   (0x105bb, 2, 1), (0x10780, 1, 1), (0x10783, 3, 1), (0x10787, 42, 1), (0x107b2, 9, 1),
   (0x10cc0, 51, 1), (0x118c0, 32, 1), (0x16e60, 32, 1), (0x1d41a, 26, 1), (0x1d44e, 7, 1),
   (0x1d456, 18, 1), (0x1d482, 26, 1), (0x1d4b6, 4, 1), (0x1d4bb, 1, 1), (0x1d4bd, 7, 1),
   (0x1d4c5, 11, 1), (0x1d4ea, 26, 1), (0x1d51e, 26, 1), (0x1d552, 26, 1), (0x1d586, 26, 1),
   (0x1d5ba, 26, 1), (0x1d5ee, 26, 1), (0x1d622, 26, 1), (0x1d656, 26, 1), (0x1d68a, 28, 1),
   (0x1d6c2, 25, 1), (0x1d6dc, 6, 1), (0x1d6fc, 25, 1), (0x1d716, 6, 1), (0x1d736, 25, 1),
   (0x1d750, 6, 1), (0x1d770, 25, 1), (0x1d78a, 6, 1), (0x1d7aa, 25, 1), (0x1d7c4, 6, 1),
   (0x1d7cb, 1, 1), (0x1df00, 10, 1), (0x1df0b, 20, 1), (0x1df25, 6, 1), (0x1e030, 62, 1),
   (0x1e922, 34, 1)]

/-- Runs `(first, count, step, distance)` of the letters beyond ASCII whose upper case is one
other letter. -/
def toUpperRuns : List (Nat × Nat × Nat × Int) :=
  [(0xb5, 1, 1, 743), (0xe0, 23, 1, -32), (0xf8, 7, 1, -32), (0xff, 1, 1, 121), (0x101, 24, 2, -1),
   (0x131, 1, 1, -232), (0x133, 3, 2, -1), (0x13a, 8, 2, -1), (0x14b, 23, 2, -1),
   (0x17a, 3, 2, -1), (0x17f, 1, 1, -300), (0x180, 1, 1, 195), (0x183, 2, 2, -1),
   (0x188, 1, 1, -1), (0x18c, 1, 1, -1), (0x192, 1, 1, -1), (0x195, 1, 1, 97), (0x199, 1, 1, -1),
   (0x19a, 1, 1, 163), (0x19e, 1, 1, 130), (0x1a1, 3, 2, -1), (0x1a8, 1, 1, -1), (0x1ad, 1, 1, -1),
   (0x1b0, 1, 1, -1), (0x1b4, 2, 2, -1), (0x1b9, 1, 1, -1), (0x1bd, 1, 1, -1), (0x1bf, 1, 1, 56),
   (0x1c5, 1, 1, -1), (0x1c6, 1, 1, -2), (0x1c8, 1, 1, -1), (0x1c9, 1, 1, -2), (0x1cb, 1, 1, -1),
   (0x1cc, 1, 1, -2), (0x1ce, 8, 2, -1), (0x1dd, 1, 1, -79), (0x1df, 9, 2, -1), (0x1f2, 1, 1, -1),
   (0x1f3, 1, 1, -2), (0x1f5, 1, 1, -1), (0x1f9, 20, 2, -1), (0x223, 9, 2, -1), (0x23c, 1, 1, -1),
   (0x23f, 2, 1, 10815), (0x242, 1, 1, -1), (0x247, 5, 2, -1), (0x250, 1, 1, 10783),
   (0x251, 1, 1, 10780), (0x252, 1, 1, 10782), (0x253, 1, 1, -210), (0x254, 1, 1, -206),
   (0x256, 2, 1, -205), (0x259, 1, 1, -202), (0x25b, 1, 1, -203), (0x25c, 1, 1, 42319),
   (0x260, 1, 1, -205), (0x261, 1, 1, 42315), (0x263, 1, 1, -207), (0x265, 1, 1, 42280),
   (0x266, 1, 1, 42308), (0x268, 1, 1, -209), (0x269, 1, 1, -211), (0x26a, 1, 1, 42308),
   (0x26b, 1, 1, 10743), (0x26c, 1, 1, 42305), (0x26f, 1, 1, -211), (0x271, 1, 1, 10749),
   (0x272, 1, 1, -213), (0x275, 1, 1, -214), (0x27d, 1, 1, 10727), (0x280, 1, 1, -218),
   (0x282, 1, 1, 42307), (0x283, 1, 1, -218), (0x287, 1, 1, 42282), (0x288, 1, 1, -218),
   (0x289, 1, 1, -69), (0x28a, 2, 1, -217), (0x28c, 1, 1, -71), (0x292, 1, 1, -219),
   (0x29d, 1, 1, 42261), (0x29e, 1, 1, 42258), (0x345, 1, 1, 84), (0x371, 2, 2, -1),
   (0x377, 1, 1, -1), (0x37b, 3, 1, 130), (0x3ac, 1, 1, -38), (0x3ad, 3, 1, -37),
   (0x3b1, 17, 1, -32), (0x3c2, 1, 1, -31), (0x3c3, 9, 1, -32), (0x3cc, 1, 1, -64),
   (0x3cd, 2, 1, -63), (0x3d0, 1, 1, -62), (0x3d1, 1, 1, -57), (0x3d5, 1, 1, -47),
   (0x3d6, 1, 1, -54), (0x3d7, 1, 1, -8), (0x3d9, 12, 2, -1), (0x3f0, 1, 1, -86),
   (0x3f1, 1, 1, -80), (0x3f2, 1, 1, 7), (0x3f3, 1, 1, -116), (0x3f5, 1, 1, -96),
   (0x3f8, 1, 1, -1), (0x3fb, 1, 1, -1), (0x430, 32, 1, -32), (0x450, 16, 1, -80),
   (0x461, 17, 2, -1), (0x48b, 27, 2, -1), (0x4c2, 7, 2, -1), (0x4cf, 1, 1, -15),
   (0x4d1, 48, 2, -1), (0x561, 38, 1, -48), (0x10d0, 43, 1, 3008), (0x10fd, 3, 1, 3008),
   (0x13f8, 6, 1, -8), (0x1c80, 1, 1, -6254), (0x1c81, 1, 1, -6253), (0x1c82, 1, 1, -6244),
   (0x1c83, 2, 1, -6242), (0x1c85, 1, 1, -6243), (0x1c86, 1, 1, -6236), (0x1c87, 1, 1, -6181),
   (0x1c88, 1, 1, 35266), (0x1d79, 1, 1, 35332), (0x1d7d, 1, 1, 3814), (0x1d8e, 1, 1, 35384),
   (0x1e01, 75, 2, -1), (0x1e9b, 1, 1, -59), (0x1ea1, 48, 2, -1), (0x1f00, 8, 1, 8),
   (0x1f10, 6, 1, 8), (0x1f20, 8, 1, 8), (0x1f30, 8, 1, 8), (0x1f40, 6, 1, 8), (0x1f51, 4, 2, 8),
   (0x1f60, 8, 1, 8), (0x1f70, 2, 1, 74), (0x1f72, 4, 1, 86), (0x1f76, 2, 1, 100),
   (0x1f78, 2, 1, 128), (0x1f7a, 2, 1, 112), (0x1f7c, 2, 1, 126), (0x1fb0, 2, 1, 8),
   (0x1fbe, 1, 1, -7205), (0x1fd0, 2, 1, 8), (0x1fe0, 2, 1, 8), (0x1fe5, 1, 1, 7),
   (0x214e, 1, 1, -28), (0x2170, 16, 1, -16), (0x2184, 1, 1, -1), (0x24d0, 26, 1, -26),
   (0x2c30, 48, 1, -48), (0x2c61, 1, 1, -1), (0x2c65, 1, 1, -10795), (0x2c66, 1, 1, -10792),
   (0x2c68, 3, 2, -1), (0x2c73, 1, 1, -1), (0x2c76, 1, 1, -1), (0x2c81, 50, 2, -1),
   (0x2cec, 2, 2, -1), (0x2cf3, 1, 1, -1), (0x2d00, 38, 1, -7264), (0x2d27, 1, 1, -7264),
   (0x2d2d, 1, 1, -7264), (0xa641, 23, 2, -1), (0xa681, 14, 2, -1), (0xa723, 7, 2, -1),
   (0xa733, 31, 2, -1), (0xa77a, 2, 2, -1), (0xa77f, 5, 2, -1), (0xa78c, 1, 1, -1),
   (0xa791, 2, 2, -1), (0xa794, 1, 1, 48), (0xa797, 10, 2, -1), (0xa7b5, 8, 2, -1),
   (0xa7c8, 2, 2, -1), (0xa7d1, 1, 1, -1), (0xa7d7, 2, 2, -1), (0xa7f6, 1, 1, -1),
   (0xab53, 1, 1, -928), (0xab70, 80, 1, -38864), (0xff41, 26, 1, -32), (0x10428, 40, 1, -40),
   (0x104d8, 36, 1, -40), (0x10597, 11, 1, -39), (0x105a3, 15, 1, -39), (0x105b3, 7, 1, -39),
   (0x105bb, 2, 1, -39), (0x10cc0, 51, 1, -64), (0x118c0, 32, 1, -32), (0x16e60, 32, 1, -32),
   (0x1e922, 34, 1, -34)]

/-- Runs `(first, count, step, distance)` of the letters beyond ASCII whose lower case is one
other letter. -/
def toLowerRuns : List (Nat × Nat × Nat × Int) :=
  [(0xc0, 23, 1, 32), (0xd8, 7, 1, 32), (0x100, 24, 2, 1), (0x132, 3, 2, 1), (0x139, 8, 2, 1),
   (0x14a, 23, 2, 1), (0x178, 1, 1, -121), (0x179, 3, 2, 1), (0x181, 1, 1, 210), (0x182, 2, 2, 1),
   (0x186, 1, 1, 206), (0x187, 1, 1, 1), (0x189, 2, 1, 205), (0x18b, 1, 1, 1), (0x18e, 1, 1, 79),
   (0x18f, 1, 1, 202), (0x190, 1, 1, 203), (0x191, 1, 1, 1), (0x193, 1, 1, 205),
   (0x194, 1, 1, 207), (0x196, 1, 1, 211), (0x197, 1, 1, 209), (0x198, 1, 1, 1),
   (0x19c, 1, 1, 211), (0x19d, 1, 1, 213), (0x19f, 1, 1, 214), (0x1a0, 3, 2, 1),
   (0x1a6, 1, 1, 218), (0x1a7, 1, 1, 1), (0x1a9, 1, 1, 218), (0x1ac, 1, 1, 1), (0x1ae, 1, 1, 218),
   (0x1af, 1, 1, 1), (0x1b1, 2, 1, 217), (0x1b3, 2, 2, 1), (0x1b7, 1, 1, 219), (0x1b8, 1, 1, 1),
   (0x1bc, 1, 1, 1), (0x1c4, 1, 1, 2), (0x1c5, 1, 1, 1), (0x1c7, 1, 1, 2), (0x1c8, 1, 1, 1),
   (0x1ca, 1, 1, 2), (0x1cb, 9, 2, 1), (0x1de, 9, 2, 1), (0x1f1, 1, 1, 2), (0x1f2, 2, 2, 1),
   (0x1f6, 1, 1, -97), (0x1f7, 1, 1, -56), (0x1f8, 20, 2, 1), (0x220, 1, 1, -130),
   (0x222, 9, 2, 1), (0x23a, 1, 1, 10795), (0x23b, 1, 1, 1), (0x23d, 1, 1, -163),
   (0x23e, 1, 1, 10792), (0x241, 1, 1, 1), (0x243, 1, 1, -195), (0x244, 1, 1, 69),
   (0x245, 1, 1, 71), (0x246, 5, 2, 1), (0x370, 2, 2, 1), (0x376, 1, 1, 1), (0x37f, 1, 1, 116),
   (0x386, 1, 1, 38), (0x388, 3, 1, 37), (0x38c, 1, 1, 64), (0x38e, 2, 1, 63), (0x391, 17, 1, 32),
   (0x3a3, 9, 1, 32), (0x3cf, 1, 1, 8), (0x3d8, 12, 2, 1), (0x3f4, 1, 1, -60), (0x3f7, 1, 1, 1),
   (0x3f9, 1, 1, -7), (0x3fa, 1, 1, 1), (0x3fd, 3, 1, -130), (0x400, 16, 1, 80),
   (0x410, 32, 1, 32), (0x460, 17, 2, 1), (0x48a, 27, 2, 1), (0x4c0, 1, 1, 15), (0x4c1, 7, 2, 1),
   (0x4d0, 48, 2, 1), (0x531, 38, 1, 48), (0x10a0, 38, 1, 7264), (0x10c7, 1, 1, 7264),
   (0x10cd, 1, 1, 7264), (0x13a0, 80, 1, 38864), (0x13f0, 6, 1, 8), (0x1c90, 43, 1, -3008),
   (0x1cbd, 3, 1, -3008), (0x1e00, 75, 2, 1), (0x1e9e, 1, 1, -7615), (0x1ea0, 48, 2, 1),
   (0x1f08, 8, 1, -8), (0x1f18, 6, 1, -8), (0x1f28, 8, 1, -8), (0x1f38, 8, 1, -8),
   (0x1f48, 6, 1, -8), (0x1f59, 4, 2, -8), (0x1f68, 8, 1, -8), (0x1f88, 8, 1, -8),
   (0x1f98, 8, 1, -8), (0x1fa8, 8, 1, -8), (0x1fb8, 2, 1, -8), (0x1fba, 2, 1, -74),
   (0x1fbc, 1, 1, -9), (0x1fc8, 4, 1, -86), (0x1fcc, 1, 1, -9), (0x1fd8, 2, 1, -8),
   (0x1fda, 2, 1, -100), (0x1fe8, 2, 1, -8), (0x1fea, 2, 1, -112), (0x1fec, 1, 1, -7),
   (0x1ff8, 2, 1, -128), (0x1ffa, 2, 1, -126), (0x1ffc, 1, 1, -9), (0x2126, 1, 1, -7517),
   (0x212a, 1, 1, -8383), (0x212b, 1, 1, -8262), (0x2132, 1, 1, 28), (0x2160, 16, 1, 16),
   (0x2183, 1, 1, 1), (0x24b6, 26, 1, 26), (0x2c00, 48, 1, 48), (0x2c60, 1, 1, 1),
   (0x2c62, 1, 1, -10743), (0x2c63, 1, 1, -3814), (0x2c64, 1, 1, -10727), (0x2c67, 3, 2, 1),
   (0x2c6d, 1, 1, -10780), (0x2c6e, 1, 1, -10749), (0x2c6f, 1, 1, -10783), (0x2c70, 1, 1, -10782),
   (0x2c72, 1, 1, 1), (0x2c75, 1, 1, 1), (0x2c7e, 2, 1, -10815), (0x2c80, 50, 2, 1),
   (0x2ceb, 2, 2, 1), (0x2cf2, 1, 1, 1), (0xa640, 23, 2, 1), (0xa680, 14, 2, 1), (0xa722, 7, 2, 1),
   (0xa732, 31, 2, 1), (0xa779, 2, 2, 1), (0xa77d, 1, 1, -35332), (0xa77e, 5, 2, 1),
   (0xa78b, 1, 1, 1), (0xa78d, 1, 1, -42280), (0xa790, 2, 2, 1), (0xa796, 10, 2, 1),
   (0xa7aa, 1, 1, -42308), (0xa7ab, 1, 1, -42319), (0xa7ac, 1, 1, -42315), (0xa7ad, 1, 1, -42305),
   (0xa7ae, 1, 1, -42308), (0xa7b0, 1, 1, -42258), (0xa7b1, 1, 1, -42282), (0xa7b2, 1, 1, -42261),
   (0xa7b3, 1, 1, 928), (0xa7b4, 8, 2, 1), (0xa7c4, 1, 1, -48), (0xa7c5, 1, 1, -42307),
   (0xa7c6, 1, 1, -35384), (0xa7c7, 2, 2, 1), (0xa7d0, 1, 1, 1), (0xa7d6, 2, 2, 1),
   (0xa7f5, 1, 1, 1), (0xff21, 26, 1, 32), (0x10400, 40, 1, 40), (0x104b0, 36, 1, 40),
   (0x10570, 11, 1, 39), (0x1057c, 15, 1, 39), (0x1058c, 7, 1, 39), (0x10594, 2, 1, 39),
   (0x10c80, 51, 1, 64), (0x118a0, 32, 1, 32), (0x16e40, 32, 1, 32), (0x1e900, 34, 1, 34)]

/-- The letters whose upper case is several letters. -/
def toUpperMany : List (Nat × List Nat) :=
  [(0xdf, [0x53, 0x53]), (0x149, [0x2bc, 0x4e]), (0x1f0, [0x4a, 0x30c]),
   (0x390, [0x399, 0x308, 0x301]), (0x3b0, [0x3a5, 0x308, 0x301]), (0x587, [0x535, 0x552]),
   (0x1e96, [0x48, 0x331]), (0x1e97, [0x54, 0x308]), (0x1e98, [0x57, 0x30a]),
   (0x1e99, [0x59, 0x30a]), (0x1e9a, [0x41, 0x2be]), (0x1f50, [0x3a5, 0x313]),
   (0x1f52, [0x3a5, 0x313, 0x300]), (0x1f54, [0x3a5, 0x313, 0x301]),
   (0x1f56, [0x3a5, 0x313, 0x342]), (0x1f80, [0x1f08, 0x399]), (0x1f81, [0x1f09, 0x399]),
   (0x1f82, [0x1f0a, 0x399]), (0x1f83, [0x1f0b, 0x399]), (0x1f84, [0x1f0c, 0x399]),
   (0x1f85, [0x1f0d, 0x399]), (0x1f86, [0x1f0e, 0x399]), (0x1f87, [0x1f0f, 0x399]),
   (0x1f88, [0x1f08, 0x399]), (0x1f89, [0x1f09, 0x399]), (0x1f8a, [0x1f0a, 0x399]),
   (0x1f8b, [0x1f0b, 0x399]), (0x1f8c, [0x1f0c, 0x399]), (0x1f8d, [0x1f0d, 0x399]),
   (0x1f8e, [0x1f0e, 0x399]), (0x1f8f, [0x1f0f, 0x399]), (0x1f90, [0x1f28, 0x399]),
   (0x1f91, [0x1f29, 0x399]), (0x1f92, [0x1f2a, 0x399]), (0x1f93, [0x1f2b, 0x399]),
   (0x1f94, [0x1f2c, 0x399]), (0x1f95, [0x1f2d, 0x399]), (0x1f96, [0x1f2e, 0x399]),
   (0x1f97, [0x1f2f, 0x399]), (0x1f98, [0x1f28, 0x399]), (0x1f99, [0x1f29, 0x399]),
   (0x1f9a, [0x1f2a, 0x399]), (0x1f9b, [0x1f2b, 0x399]), (0x1f9c, [0x1f2c, 0x399]),
   (0x1f9d, [0x1f2d, 0x399]), (0x1f9e, [0x1f2e, 0x399]), (0x1f9f, [0x1f2f, 0x399]),
   (0x1fa0, [0x1f68, 0x399]), (0x1fa1, [0x1f69, 0x399]), (0x1fa2, [0x1f6a, 0x399]),
   (0x1fa3, [0x1f6b, 0x399]), (0x1fa4, [0x1f6c, 0x399]), (0x1fa5, [0x1f6d, 0x399]),
   (0x1fa6, [0x1f6e, 0x399]), (0x1fa7, [0x1f6f, 0x399]), (0x1fa8, [0x1f68, 0x399]),
   (0x1fa9, [0x1f69, 0x399]), (0x1faa, [0x1f6a, 0x399]), (0x1fab, [0x1f6b, 0x399]),
   (0x1fac, [0x1f6c, 0x399]), (0x1fad, [0x1f6d, 0x399]), (0x1fae, [0x1f6e, 0x399]),
   (0x1faf, [0x1f6f, 0x399]), (0x1fb2, [0x1fba, 0x399]), (0x1fb3, [0x391, 0x399]),
   (0x1fb4, [0x386, 0x399]), (0x1fb6, [0x391, 0x342]), (0x1fb7, [0x391, 0x342, 0x399]),
   (0x1fbc, [0x391, 0x399]), (0x1fc2, [0x1fca, 0x399]), (0x1fc3, [0x397, 0x399]),
   (0x1fc4, [0x389, 0x399]), (0x1fc6, [0x397, 0x342]), (0x1fc7, [0x397, 0x342, 0x399]),
   (0x1fcc, [0x397, 0x399]), (0x1fd2, [0x399, 0x308, 0x300]), (0x1fd3, [0x399, 0x308, 0x301]),
   (0x1fd6, [0x399, 0x342]), (0x1fd7, [0x399, 0x308, 0x342]), (0x1fe2, [0x3a5, 0x308, 0x300]),
   (0x1fe3, [0x3a5, 0x308, 0x301]), (0x1fe4, [0x3a1, 0x313]), (0x1fe6, [0x3a5, 0x342]),
   (0x1fe7, [0x3a5, 0x308, 0x342]), (0x1ff2, [0x1ffa, 0x399]), (0x1ff3, [0x3a9, 0x399]),
   (0x1ff4, [0x38f, 0x399]), (0x1ff6, [0x3a9, 0x342]), (0x1ff7, [0x3a9, 0x342, 0x399]),
   (0x1ffc, [0x3a9, 0x399]), (0xfb00, [0x46, 0x46]), (0xfb01, [0x46, 0x49]),
   (0xfb02, [0x46, 0x4c]), (0xfb03, [0x46, 0x46, 0x49]), (0xfb04, [0x46, 0x46, 0x4c]),
   (0xfb05, [0x53, 0x54]), (0xfb06, [0x53, 0x54]), (0xfb13, [0x544, 0x546]),
   (0xfb14, [0x544, 0x535]), (0xfb15, [0x544, 0x53b]), (0xfb16, [0x54e, 0x546]),
   (0xfb17, [0x544, 0x53d])]

/-- The letters whose lower case is several letters. -/
def toLowerMany : List (Nat × List Nat) :=
  [(0x130, [0x69, 0x307])]

end ClientGen.Letter
