import FormTree.Text

/-!
# Capital letters

Every letter that has a capital has it at a fixed distance, and in most
scripts the letters with one distance come in runs: one after the other,
or every other one. The tables list these runs, then the letters that
stand alone, and last the letters whose capital is written with several
(character database, version 14).
-/

namespace FormTree.Text

/-- **A run of letters** whose capitals are at one distance. -/
structure CapitalRun where
  /-- The first letter. -/
  first : Nat
  /-- From one letter to the next. -/
  step : Nat
  /-- The number of letters. -/
  count : Nat
  /-- From a letter to its capital. -/
  distance : Int

/-- Whether a letter is in a run. -/
def CapitalRun.contains (r : CapitalRun) (n : Nat) : Bool :=
  Nat.ble r.first n && decide ((n - r.first) % r.step = 0)
    && Nat.blt ((n - r.first) / r.step) r.count

/-- The runs of letters. -/
def capitalRuns : List CapitalRun :=
  [⟨0x61, 1, 26, -32⟩, ⟨0xE0, 1, 23, -32⟩, ⟨0xF8, 1, 7, -32⟩,
   ⟨0x101, 2, 24, -1⟩, ⟨0x133, 2, 3, -1⟩, ⟨0x13A, 2, 8, -1⟩,
   ⟨0x14B, 2, 23, -1⟩, ⟨0x17A, 2, 3, -1⟩, ⟨0x183, 2, 2, -1⟩,
   ⟨0x1A1, 2, 3, -1⟩, ⟨0x1B4, 2, 2, -1⟩, ⟨0x1CE, 2, 8, -1⟩,
   ⟨0x1DF, 2, 9, -1⟩, ⟨0x1F9, 2, 20, -1⟩, ⟨0x223, 2, 9, -1⟩,
   ⟨0x23F, 1, 2, 10815⟩, ⟨0x247, 2, 5, -1⟩, ⟨0x256, 1, 2, -205⟩,
   ⟨0x28A, 1, 2, -217⟩, ⟨0x371, 2, 2, -1⟩, ⟨0x37B, 1, 3, 130⟩,
   ⟨0x3AD, 1, 3, -37⟩, ⟨0x3B1, 1, 17, -32⟩, ⟨0x3C3, 1, 9, -32⟩,
   ⟨0x3CD, 1, 2, -63⟩, ⟨0x3D9, 2, 12, -1⟩, ⟨0x430, 1, 32, -32⟩,
   ⟨0x450, 1, 16, -80⟩, ⟨0x461, 2, 17, -1⟩, ⟨0x48B, 2, 27, -1⟩,
   ⟨0x4C2, 2, 7, -1⟩, ⟨0x4D1, 2, 48, -1⟩, ⟨0x561, 1, 38, -48⟩,
   ⟨0x10D0, 1, 43, 3008⟩, ⟨0x10FD, 1, 3, 3008⟩, ⟨0x13F8, 1, 6, -8⟩,
   ⟨0x1C83, 1, 2, -6242⟩, ⟨0x1E01, 2, 75, -1⟩, ⟨0x1EA1, 2, 48, -1⟩,
   ⟨0x1F00, 1, 8, 8⟩, ⟨0x1F10, 1, 6, 8⟩, ⟨0x1F20, 1, 8, 8⟩,
   ⟨0x1F30, 1, 8, 8⟩, ⟨0x1F40, 1, 6, 8⟩, ⟨0x1F51, 2, 4, 8⟩,
   ⟨0x1F60, 1, 8, 8⟩, ⟨0x1F70, 1, 2, 74⟩, ⟨0x1F72, 1, 4, 86⟩,
   ⟨0x1F76, 1, 2, 100⟩, ⟨0x1F78, 1, 2, 128⟩, ⟨0x1F7A, 1, 2, 112⟩,
   ⟨0x1F7C, 1, 2, 126⟩, ⟨0x1FB0, 1, 2, 8⟩, ⟨0x1FD0, 1, 2, 8⟩,
   ⟨0x1FE0, 1, 2, 8⟩, ⟨0x2170, 1, 16, -16⟩, ⟨0x24D0, 1, 26, -26⟩,
   ⟨0x2C30, 1, 48, -48⟩, ⟨0x2C68, 2, 3, -1⟩, ⟨0x2C81, 2, 50, -1⟩,
   ⟨0x2CEC, 2, 2, -1⟩, ⟨0x2D00, 1, 38, -7264⟩, ⟨0xA641, 2, 23, -1⟩,
   ⟨0xA681, 2, 14, -1⟩, ⟨0xA723, 2, 7, -1⟩, ⟨0xA733, 2, 31, -1⟩,
   ⟨0xA77A, 2, 2, -1⟩, ⟨0xA77F, 2, 5, -1⟩, ⟨0xA791, 2, 2, -1⟩,
   ⟨0xA797, 2, 10, -1⟩, ⟨0xA7B5, 2, 8, -1⟩, ⟨0xA7C8, 2, 2, -1⟩,
   ⟨0xA7D7, 2, 2, -1⟩, ⟨0xAB70, 1, 80, -38864⟩, ⟨0xFF41, 1, 26, -32⟩,
   ⟨0x10428, 1, 40, -40⟩, ⟨0x104D8, 1, 36, -40⟩, ⟨0x10597, 2, 19, -39⟩,
   ⟨0x10598, 2, 5, -39⟩, ⟨0x105A4, 2, 7, -39⟩, ⟨0x105B4, 2, 3, -39⟩,
   ⟨0x10CC0, 1, 51, -64⟩, ⟨0x118C0, 1, 32, -32⟩, ⟨0x16E60, 1, 32, -32⟩,
   ⟨0x1E922, 1, 34, -34⟩]

/-- The single letters, with the distance to the capital. -/
def loneCapitals : List (Nat × Int) :=
  [(0xB5, 743), (0xFF, 121), (0x131, -232), (0x17F, -300), (0x180, 195),
   (0x188, -1), (0x18C, -1), (0x192, -1), (0x195, 97), (0x199, -1),
   (0x19A, 163), (0x19E, 130), (0x1A8, -1), (0x1AD, -1), (0x1B0, -1),
   (0x1B9, -1), (0x1BD, -1), (0x1BF, 56), (0x1C5, -1), (0x1C6, -2),
   (0x1C8, -1), (0x1C9, -2), (0x1CB, -1), (0x1CC, -2), (0x1DD, -79),
   (0x1F2, -1), (0x1F3, -2), (0x1F5, -1), (0x23C, -1), (0x242, -1),
   (0x250, 10783), (0x251, 10780), (0x252, 10782), (0x253, -210),
   (0x254, -206), (0x259, -202), (0x25B, -203), (0x25C, 42319),
   (0x260, -205), (0x261, 42315), (0x263, -207), (0x265, 42280),
   (0x266, 42308), (0x268, -209), (0x269, -211), (0x26A, 42308),
   (0x26B, 10743), (0x26C, 42305), (0x26F, -211), (0x271, 10749),
   (0x272, -213), (0x275, -214), (0x27D, 10727), (0x280, -218),
   (0x282, 42307), (0x283, -218), (0x287, 42282), (0x288, -218),
   (0x289, -69), (0x28C, -71), (0x292, -219), (0x29D, 42261),
   (0x29E, 42258), (0x345, 84), (0x377, -1), (0x3AC, -38), (0x3C2, -31),
   (0x3CC, -64), (0x3D0, -62), (0x3D1, -57), (0x3D5, -47), (0x3D6, -54),
   (0x3D7, -8), (0x3F0, -86), (0x3F1, -80), (0x3F2, 7), (0x3F3, -116),
   (0x3F5, -96), (0x3F8, -1), (0x3FB, -1), (0x4CF, -15), (0x1C80, -6254),
   (0x1C81, -6253), (0x1C82, -6244), (0x1C85, -6243), (0x1C86, -6236),
   (0x1C87, -6181), (0x1C88, 35266), (0x1D79, 35332), (0x1D7D, 3814),
   (0x1D8E, 35384), (0x1E9B, -59), (0x1FBE, -7205), (0x1FE5, 7),
   (0x214E, -28), (0x2184, -1), (0x2C61, -1), (0x2C65, -10795),
   (0x2C66, -10792), (0x2C73, -1), (0x2C76, -1), (0x2CF3, -1),
   (0x2D27, -7264), (0x2D2D, -7264), (0xA78C, -1), (0xA794, 48),
   (0xA7D1, -1), (0xA7F6, -1), (0xAB53, -928), (0x105BC, -39)]

/-- The letters whose capital is written with several. -/
def longCapitals : List (Nat × List Nat) :=
  [(0xDF, [0x53, 0x53]), (0x149, [0x2BC, 0x4E]), (0x1F0, [0x4A, 0x30C]),
   (0x390, [0x399, 0x308, 0x301]), (0x3B0, [0x3A5, 0x308, 0x301]),
   (0x587, [0x535, 0x552]), (0x1E96, [0x48, 0x331]),
   (0x1E97, [0x54, 0x308]), (0x1E98, [0x57, 0x30A]),
   (0x1E99, [0x59, 0x30A]), (0x1E9A, [0x41, 0x2BE]),
   (0x1F50, [0x3A5, 0x313]), (0x1F52, [0x3A5, 0x313, 0x300]),
   (0x1F54, [0x3A5, 0x313, 0x301]), (0x1F56, [0x3A5, 0x313, 0x342]),
   (0x1FB2, [0x1FBA, 0x399]), (0x1FB3, [0x391, 0x399]),
   (0x1FB4, [0x386, 0x399]), (0x1FB6, [0x391, 0x342]),
   (0x1FB7, [0x391, 0x342, 0x399]), (0x1FBC, [0x391, 0x399]),
   (0x1FC2, [0x1FCA, 0x399]), (0x1FC3, [0x397, 0x399]),
   (0x1FC4, [0x389, 0x399]), (0x1FC6, [0x397, 0x342]),
   (0x1FC7, [0x397, 0x342, 0x399]), (0x1FCC, [0x397, 0x399]),
   (0x1FD2, [0x399, 0x308, 0x300]), (0x1FD3, [0x399, 0x308, 0x301]),
   (0x1FD6, [0x399, 0x342]), (0x1FD7, [0x399, 0x308, 0x342]),
   (0x1FE2, [0x3A5, 0x308, 0x300]), (0x1FE3, [0x3A5, 0x308, 0x301]),
   (0x1FE4, [0x3A1, 0x313]), (0x1FE6, [0x3A5, 0x342]),
   (0x1FE7, [0x3A5, 0x308, 0x342]), (0x1FF2, [0x1FFA, 0x399]),
   (0x1FF3, [0x3A9, 0x399]), (0x1FF4, [0x38F, 0x399]),
   (0x1FF6, [0x3A9, 0x342]), (0x1FF7, [0x3A9, 0x342, 0x399]),
   (0x1FFC, [0x3A9, 0x399]), (0xFB00, [0x46, 0x46]),
   (0xFB01, [0x46, 0x49]), (0xFB02, [0x46, 0x4C]),
   (0xFB03, [0x46, 0x46, 0x49]), (0xFB04, [0x46, 0x46, 0x4C]),
   (0xFB05, [0x53, 0x54]), (0xFB06, [0x53, 0x54]),
   (0xFB13, [0x544, 0x546]), (0xFB14, [0x544, 0x535]),
   (0xFB15, [0x544, 0x53B]), (0xFB16, [0x54E, 0x546]),
   (0xFB17, [0x544, 0x53D])]

/-- The runs of eight letters whose capital is a letter of another run of
eight with a capital iota after it, by the first letters of the two. -/
def iotaRuns : List (Nat × Nat) :=
  [(0x1F80, 0x1F08), (0x1F88, 0x1F08), (0x1F90, 0x1F28), (0x1F98, 0x1F28),
   (0x1FA0, 0x1F68), (0x1FA8, 0x1F68)]

/-- A capital iota. -/
def capitalIota : Nat := 0x399

/-- The capital of a letter, where it is written with several. -/
def longCapital? (n : Nat) : Option (List Nat) :=
  match longCapitals.find? fun p => p.1 = n with
  | some p => some p.2
  | none =>
    (iotaRuns.find? fun p => Nat.ble p.1 n && Nat.blt n (p.1 + 8)).map
      fun p => [p.2 + (n - p.1), capitalIota]

/-- The distance from a letter to its capital. -/
def capitalDistance (n : Nat) : Int :=
  match capitalRuns.find? fun r => r.contains n with
  | some r => r.distance
  | none =>
    match loneCapitals.find? fun p => p.1 = n with
    | some p => p.2
    | none => 0

/-- **The capital of a code point**, which is the code point itself when
it has none. -/
def capital (n : Nat) : List Nat :=
  (longCapital? n).getD [((n : Int) + capitalDistance n).toNat]

/-- **A text in capitals.** -/
def capitals (t : Text) : Text := ⟨t.points.flatMap capital⟩

end FormTree.Text
