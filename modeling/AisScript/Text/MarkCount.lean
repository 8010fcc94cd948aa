/-!
# Marks within a character

How many marks a character begins and ends with once it is taken apart as far as possible, also into
characters that only resemble it.  A letter with an accent ends with one mark, for instance, and a
halfwidth voicing sign is nothing but a mark.  Marks themselves and Hangul syllables are not listed.
-/

namespace AisScript.Text

/-- First and last character of every range, and the number of marks at their end. -/
def closingMarkRanges : Array (Nat × Nat × Nat) := #[
  (0xA8, 0xA8, 1), (0xAF, 0xAF, 1), (0xB4, 0xB4, 1), (0xB8, 0xB8, 1), (0xC0, 0xC5, 1),
  (0xC7, 0xCF, 1), (0xD1, 0xD6, 1), (0xD9, 0xDD, 1), (0xE0, 0xE5, 1), (0xE7, 0xEF, 1),
  (0xF1, 0xF6, 1), (0xF9, 0xFD, 1), (0xFF, 0x10F, 1), (0x112, 0x125, 1), (0x128, 0x130, 1),
  (0x134, 0x137, 1), (0x139, 0x13E, 1), (0x143, 0x148, 1), (0x14C, 0x151, 1), (0x154, 0x165, 1),
  (0x168, 0x17E, 1), (0x1A0, 0x1A1, 1), (0x1AF, 0x1B0, 1), (0x1C4, 0x1C6, 1), (0x1CD, 0x1D4, 1),
  (0x1D5, 0x1DC, 2), (0x1DE, 0x1E1, 2), (0x1E2, 0x1E3, 1), (0x1E6, 0x1EB, 1), (0x1EC, 0x1ED, 2),
  (0x1EE, 0x1F0, 1), (0x1F4, 0x1F5, 1), (0x1F8, 0x1F9, 1), (0x1FA, 0x1FB, 2), (0x1FC, 0x21B, 1),
  (0x21E, 0x21F, 1), (0x226, 0x229, 1), (0x22A, 0x22D, 2), (0x22E, 0x22F, 1), (0x230, 0x231, 2),
  (0x232, 0x233, 1), (0x2D8, 0x2DD, 1), (0x340, 0x341, 1), (0x343, 0x343, 1), (0x344, 0x344, 2),
  (0x37A, 0x37A, 1), (0x384, 0x384, 1), (0x385, 0x385, 2), (0x386, 0x386, 1), (0x388, 0x38A, 1),
  (0x38C, 0x38C, 1), (0x38E, 0x38F, 1), (0x390, 0x390, 2), (0x3AA, 0x3AF, 1), (0x3B0, 0x3B0, 2),
  (0x3CA, 0x3CE, 1), (0x3D3, 0x3D4, 1), (0x400, 0x401, 1), (0x403, 0x403, 1), (0x407, 0x407, 1),
  (0x40C, 0x40E, 1), (0x419, 0x419, 1), (0x439, 0x439, 1), (0x450, 0x451, 1), (0x453, 0x453, 1),
  (0x457, 0x457, 1), (0x45C, 0x45E, 1), (0x476, 0x477, 1), (0x4C1, 0x4C2, 1), (0x4D0, 0x4D3, 1),
  (0x4D6, 0x4D7, 1), (0x4DA, 0x4DF, 1), (0x4E2, 0x4E7, 1), (0x4EA, 0x4F5, 1), (0x4F8, 0x4F9, 1),
  (0x622, 0x626, 1), (0x6C0, 0x6C0, 1), (0x6C2, 0x6C2, 1), (0x6D3, 0x6D3, 1), (0x929, 0x929, 1),
  (0x931, 0x931, 1), (0x934, 0x934, 1), (0x958, 0x95F, 1), (0x9CB, 0x9CC, 1), (0x9DC, 0x9DD, 1),
  (0x9DF, 0x9DF, 1), (0xA33, 0xA33, 1), (0xA36, 0xA36, 1), (0xA59, 0xA5B, 1), (0xA5E, 0xA5E, 1),
  (0xB48, 0xB48, 1), (0xB4B, 0xB4C, 1), (0xB5C, 0xB5D, 1), (0xB94, 0xB94, 1), (0xBCA, 0xBCC, 1),
  (0xC48, 0xC48, 1), (0xCC0, 0xCC0, 1), (0xCC7, 0xCC8, 1), (0xCCA, 0xCCA, 1), (0xCCB, 0xCCB, 2),
  (0xD4A, 0xD4C, 1), (0xDDA, 0xDDA, 1), (0xDDC, 0xDDC, 1), (0xDDD, 0xDDD, 2), (0xDDE, 0xDDE, 1),
  (0xF73, 0xF73, 2), (0xF75, 0xF75, 2), (0xF76, 0xF76, 1), (0xF77, 0xF77, 2), (0xF78, 0xF78, 1),
  (0xF79, 0xF79, 2), (0xF81, 0xF81, 2), (0x1026, 0x1026, 1), (0x1B06, 0x1B06, 1),
  (0x1B08, 0x1B08, 1), (0x1B0A, 0x1B0A, 1), (0x1B0C, 0x1B0C, 1), (0x1B0E, 0x1B0E, 1),
  (0x1B12, 0x1B12, 1), (0x1B3B, 0x1B3B, 1), (0x1B3D, 0x1B3D, 1), (0x1B40, 0x1B41, 1),
  (0x1B43, 0x1B43, 1), (0x1E00, 0x1E07, 1), (0x1E08, 0x1E09, 2), (0x1E0A, 0x1E13, 1),
  (0x1E14, 0x1E17, 2), (0x1E18, 0x1E1B, 1), (0x1E1C, 0x1E1D, 2), (0x1E1E, 0x1E2D, 1),
  (0x1E2E, 0x1E2F, 2), (0x1E30, 0x1E37, 1), (0x1E38, 0x1E39, 2), (0x1E3A, 0x1E4B, 1),
  (0x1E4C, 0x1E53, 2), (0x1E54, 0x1E5B, 1), (0x1E5C, 0x1E5D, 2), (0x1E5E, 0x1E63, 1),
  (0x1E64, 0x1E69, 2), (0x1E6A, 0x1E77, 1), (0x1E78, 0x1E7B, 2), (0x1E7C, 0x1E99, 1),
  (0x1E9B, 0x1E9B, 1), (0x1EA0, 0x1EA3, 1), (0x1EA4, 0x1EB7, 2), (0x1EB8, 0x1EBD, 1),
  (0x1EBE, 0x1EC7, 2), (0x1EC8, 0x1ECF, 1), (0x1ED0, 0x1EE3, 2), (0x1EE4, 0x1EE7, 1),
  (0x1EE8, 0x1EF1, 2), (0x1EF2, 0x1EF9, 1), (0x1F00, 0x1F01, 1), (0x1F02, 0x1F07, 2),
  (0x1F08, 0x1F09, 1), (0x1F0A, 0x1F0F, 2), (0x1F10, 0x1F11, 1), (0x1F12, 0x1F15, 2),
  (0x1F18, 0x1F19, 1), (0x1F1A, 0x1F1D, 2), (0x1F20, 0x1F21, 1), (0x1F22, 0x1F27, 2),
  (0x1F28, 0x1F29, 1), (0x1F2A, 0x1F2F, 2), (0x1F30, 0x1F31, 1), (0x1F32, 0x1F37, 2),
  (0x1F38, 0x1F39, 1), (0x1F3A, 0x1F3F, 2), (0x1F40, 0x1F41, 1), (0x1F42, 0x1F45, 2),
  (0x1F48, 0x1F49, 1), (0x1F4A, 0x1F4D, 2), (0x1F50, 0x1F51, 1), (0x1F52, 0x1F57, 2),
  (0x1F59, 0x1F59, 1), (0x1F5B, 0x1F5B, 2), (0x1F5D, 0x1F5D, 2), (0x1F5F, 0x1F5F, 2),
  (0x1F60, 0x1F61, 1), (0x1F62, 0x1F67, 2), (0x1F68, 0x1F69, 1), (0x1F6A, 0x1F6F, 2),
  (0x1F70, 0x1F7D, 1), (0x1F80, 0x1F81, 2), (0x1F82, 0x1F87, 3), (0x1F88, 0x1F89, 2),
  (0x1F8A, 0x1F8F, 3), (0x1F90, 0x1F91, 2), (0x1F92, 0x1F97, 3), (0x1F98, 0x1F99, 2),
  (0x1F9A, 0x1F9F, 3), (0x1FA0, 0x1FA1, 2), (0x1FA2, 0x1FA7, 3), (0x1FA8, 0x1FA9, 2),
  (0x1FAA, 0x1FAF, 3), (0x1FB0, 0x1FB1, 1), (0x1FB2, 0x1FB2, 2), (0x1FB3, 0x1FB3, 1),
  (0x1FB4, 0x1FB4, 2), (0x1FB6, 0x1FB6, 1), (0x1FB7, 0x1FB7, 2), (0x1FB8, 0x1FBD, 1),
  (0x1FBF, 0x1FC0, 1), (0x1FC1, 0x1FC2, 2), (0x1FC3, 0x1FC3, 1), (0x1FC4, 0x1FC4, 2),
  (0x1FC6, 0x1FC6, 1), (0x1FC7, 0x1FC7, 2), (0x1FC8, 0x1FCC, 1), (0x1FCD, 0x1FCF, 2),
  (0x1FD0, 0x1FD1, 1), (0x1FD2, 0x1FD3, 2), (0x1FD6, 0x1FD6, 1), (0x1FD7, 0x1FD7, 2),
  (0x1FD8, 0x1FDB, 1), (0x1FDD, 0x1FDF, 2), (0x1FE0, 0x1FE1, 1), (0x1FE2, 0x1FE3, 2),
  (0x1FE4, 0x1FE6, 1), (0x1FE7, 0x1FE7, 2), (0x1FE8, 0x1FEC, 1), (0x1FED, 0x1FEE, 2),
  (0x1FF2, 0x1FF2, 2), (0x1FF3, 0x1FF3, 1), (0x1FF4, 0x1FF4, 2), (0x1FF6, 0x1FF6, 1),
  (0x1FF7, 0x1FF7, 2), (0x1FF8, 0x1FFE, 1), (0x2017, 0x2017, 1), (0x203E, 0x203E, 1),
  (0x212B, 0x212B, 1), (0x219A, 0x219B, 1), (0x21AE, 0x21AE, 1), (0x21CD, 0x21CF, 1),
  (0x2204, 0x2204, 1), (0x2209, 0x2209, 1), (0x220C, 0x220C, 1), (0x2224, 0x2224, 1),
  (0x2226, 0x2226, 1), (0x2241, 0x2241, 1), (0x2244, 0x2244, 1), (0x2247, 0x2247, 1),
  (0x2249, 0x2249, 1), (0x2260, 0x2260, 1), (0x2262, 0x2262, 1), (0x226D, 0x2271, 1),
  (0x2274, 0x2275, 1), (0x2278, 0x2279, 1), (0x2280, 0x2281, 1), (0x2284, 0x2285, 1),
  (0x2288, 0x2289, 1), (0x22AC, 0x22AF, 1), (0x22E0, 0x22E3, 1), (0x22EA, 0x22ED, 1),
  (0x2ADC, 0x2ADC, 1), (0x304C, 0x304C, 1), (0x304E, 0x304E, 1), (0x3050, 0x3050, 1),
  (0x3052, 0x3052, 1), (0x3054, 0x3054, 1), (0x3056, 0x3056, 1), (0x3058, 0x3058, 1),
  (0x305A, 0x305A, 1), (0x305C, 0x305C, 1), (0x305E, 0x305E, 1), (0x3060, 0x3060, 1),
  (0x3062, 0x3062, 1), (0x3065, 0x3065, 1), (0x3067, 0x3067, 1), (0x3069, 0x3069, 1),
  (0x3070, 0x3071, 1), (0x3073, 0x3074, 1), (0x3076, 0x3077, 1), (0x3079, 0x307A, 1),
  (0x307C, 0x307D, 1), (0x3094, 0x3094, 1), (0x309B, 0x309C, 1), (0x309E, 0x309E, 1),
  (0x30AC, 0x30AC, 1), (0x30AE, 0x30AE, 1), (0x30B0, 0x30B0, 1), (0x30B2, 0x30B2, 1),
  (0x30B4, 0x30B4, 1), (0x30B6, 0x30B6, 1), (0x30B8, 0x30B8, 1), (0x30BA, 0x30BA, 1),
  (0x30BC, 0x30BC, 1), (0x30BE, 0x30BE, 1), (0x30C0, 0x30C0, 1), (0x30C2, 0x30C2, 1),
  (0x30C5, 0x30C5, 1), (0x30C7, 0x30C7, 1), (0x30C9, 0x30C9, 1), (0x30D0, 0x30D1, 1),
  (0x30D3, 0x30D4, 1), (0x30D6, 0x30D7, 1), (0x30D9, 0x30DA, 1), (0x30DC, 0x30DD, 1),
  (0x30F4, 0x30F4, 1), (0x30F7, 0x30FA, 1), (0x30FE, 0x30FE, 1), (0x3133, 0x3133, 1),
  (0x3135, 0x3136, 1), (0x313A, 0x313F, 1), (0x314F, 0x3163, 1), (0x326E, 0x327E, 1),
  (0x3304, 0x3304, 1), (0x3307, 0x3307, 1), (0x3310, 0x3310, 1), (0x331E, 0x331E, 1),
  (0x3321, 0x3321, 1), (0x3332, 0x3332, 1), (0x333B, 0x333B, 1), (0x3340, 0x3340, 1),
  (0x334B, 0x334B, 1), (0x334E, 0x334E, 1), (0xFB1D, 0xFB1D, 1), (0xFB1F, 0xFB1F, 1),
  (0xFB2A, 0xFB2B, 1), (0xFB2C, 0xFB2D, 2), (0xFB2E, 0xFB36, 1), (0xFB38, 0xFB3C, 1),
  (0xFB3E, 0xFB3E, 1), (0xFB40, 0xFB41, 1), (0xFB43, 0xFB44, 1), (0xFB46, 0xFB4E, 1),
  (0xFBA4, 0xFBA5, 1), (0xFBB0, 0xFBB1, 1), (0xFC5B, 0xFC5D, 1), (0xFC5E, 0xFC63, 2),
  (0xFC90, 0xFC90, 1), (0xFCD9, 0xFCD9, 1), (0xFCF2, 0xFCF4, 2), (0xFD3C, 0xFD3D, 1),
  (0xFE49, 0xFE4C, 1), (0xFE70, 0xFE72, 1), (0xFE74, 0xFE74, 1), (0xFE76, 0xFE7F, 1),
  (0xFE81, 0xFE8C, 1), (0xFEF5, 0xFEFA, 1), (0xFF9E, 0xFF9F, 1), (0xFFA3, 0xFFA3, 1),
  (0xFFA5, 0xFFA6, 1), (0xFFAA, 0xFFAF, 1), (0xFFC2, 0xFFC7, 1), (0xFFCA, 0xFFCF, 1),
  (0xFFD2, 0xFFD7, 1), (0xFFDA, 0xFFDC, 1), (0xFFE3, 0xFFE3, 1), (0x1109A, 0x1109A, 1),
  (0x1109C, 0x1109C, 1), (0x110AB, 0x110AB, 1), (0x1112E, 0x1112F, 1), (0x1134B, 0x1134C, 1),
  (0x114BB, 0x114BC, 1), (0x114BE, 0x114BE, 1), (0x115BA, 0x115BB, 1), (0x11938, 0x11938, 1),
  (0x1D15E, 0x1D15F, 1), (0x1D160, 0x1D164, 2), (0x1D1BB, 0x1D1BC, 1), (0x1D1BD, 0x1D1C0, 2),
  (0x1F213, 0x1F213, 1)]

/-- First and last character of every range of characters that consist of marks only. -/
def openingMarkRanges : Array (Nat × Nat) := #[
  (0x340, 0x341), (0x343, 0x344), (0xF73, 0xF73), (0xF75, 0xF75), (0xF81, 0xF81), (0x3133, 0x3133),
  (0x3135, 0x3136), (0x313A, 0x313F), (0x314F, 0x3163), (0xFF9E, 0xFF9F), (0xFFA3, 0xFFA3),
  (0xFFA5, 0xFFA6), (0xFFAA, 0xFFAF), (0xFFC2, 0xFFC7), (0xFFCA, 0xFFCF), (0xFFD2, 0xFFD7),
  (0xFFDA, 0xFFDC)]

end AisScript.Text
