/-
This file holds the tables of `net-games/spacewario.c`: how a ship looks in each direction, and how
the sun attracts what is near it.
-/

namespace Frobio.Drawing

/-- `net-games/spacewar-ships.h`: for each direction and each of the four places of a ship within a
byte of the screen, five rows of two bytes, with four pixels in a byte. -/
def Ships : List UInt8 :=
  [0, 0, 252, 0, 3, 0, 252, 0, 0, 0, 0, 0, 63, 0, 0, 192, 63, 0, 0, 0,
  0, 0, 15, 192, 0, 48, 15, 192, 0, 0, 0, 0, 3, 240, 0, 12, 3, 240, 0, 0,
  0, 0, 255, 0, 12, 0, 48, 0, 192, 0, 0, 0, 63, 192, 3, 0, 12, 0, 48, 0,
  0, 0, 15, 240, 0, 192, 3, 0, 12, 0, 0, 0, 3, 252, 0, 48, 0, 192, 3, 0,
  0, 0, 15, 0, 51, 0, 204, 0, 48, 0, 0, 0, 3, 192, 12, 192, 51, 0, 12, 0,
  0, 0, 0, 240, 3, 48, 12, 192, 3, 0, 0, 0, 0, 60, 0, 204, 3, 48, 0, 192,
  0, 0, 3, 0, 15, 0, 51, 0, 195, 0, 0, 0, 0, 192, 3, 192, 12, 192, 48, 192,
  0, 0, 0, 48, 0, 240, 3, 48, 12, 48, 0, 0, 0, 12, 0, 60, 0, 204, 3, 12,
  0, 0, 12, 0, 51, 0, 51, 0, 51, 0, 0, 0, 3, 0, 12, 192, 12, 192, 12, 192,
  0, 0, 0, 192, 3, 48, 3, 48, 3, 48, 0, 0, 0, 48, 0, 204, 0, 204, 0, 204,
  0, 0, 48, 0, 60, 0, 51, 0, 48, 192, 0, 0, 12, 0, 15, 0, 12, 192, 12, 48,
  0, 0, 3, 0, 3, 192, 3, 48, 3, 12, 0, 0, 0, 192, 0, 240, 0, 204, 0, 195,
  0, 0, 60, 0, 51, 0, 12, 192, 3, 0, 0, 0, 15, 0, 12, 192, 3, 48, 0, 192,
  0, 0, 3, 192, 3, 48, 0, 204, 0, 48, 0, 0, 0, 240, 0, 204, 0, 51, 0, 12,
  0, 0, 63, 192, 12, 0, 3, 0, 0, 192, 0, 0, 15, 240, 3, 0, 0, 192, 0, 48,
  0, 0, 3, 252, 0, 192, 0, 48, 0, 12, 0, 0, 0, 255, 0, 48, 0, 12, 0, 3,
  0, 0, 15, 192, 48, 0, 15, 192, 0, 0, 0, 0, 3, 240, 12, 0, 3, 240, 0, 0,
  0, 0, 0, 252, 3, 0, 0, 252, 0, 0, 0, 0, 0, 63, 0, 192, 0, 63, 0, 0,
  0, 192, 3, 0, 12, 0, 63, 192, 0, 0, 0, 48, 0, 192, 3, 0, 15, 240, 0, 0,
  0, 12, 0, 48, 0, 192, 3, 252, 0, 0, 0, 3, 0, 12, 0, 48, 0, 255, 0, 0,
  3, 0, 12, 192, 51, 0, 60, 0, 0, 0, 0, 192, 3, 48, 12, 192, 15, 0, 0, 0,
  0, 48, 0, 204, 3, 48, 3, 192, 0, 0, 0, 12, 0, 51, 0, 204, 0, 240, 0, 0,
  48, 192, 51, 0, 60, 0, 48, 0, 0, 0, 12, 48, 12, 192, 15, 0, 12, 0, 0, 0,
  3, 12, 3, 48, 3, 192, 3, 0, 0, 0, 0, 195, 0, 204, 0, 240, 0, 192, 0, 0,
  51, 0, 51, 0, 51, 0, 12, 0, 0, 0, 12, 192, 12, 192, 12, 192, 3, 0, 0, 0,
  3, 48, 3, 48, 3, 48, 0, 192, 0, 0, 0, 204, 0, 204, 0, 204, 0, 48, 0, 0,
  195, 0, 51, 0, 15, 0, 3, 0, 0, 0, 48, 192, 12, 192, 3, 192, 0, 192, 0, 0,
  12, 48, 3, 48, 0, 240, 0, 48, 0, 0, 3, 12, 0, 204, 0, 60, 0, 12, 0, 0,
  48, 0, 204, 0, 51, 0, 15, 0, 0, 0, 12, 0, 51, 0, 12, 192, 3, 192, 0, 0,
  3, 0, 12, 192, 3, 48, 0, 240, 0, 0, 0, 192, 3, 48, 0, 204, 0, 60, 0, 0,
  192, 0, 48, 0, 12, 0, 255, 0, 0, 0, 48, 0, 12, 0, 3, 0, 63, 192, 0, 0,
  12, 0, 3, 0, 0, 192, 15, 240, 0, 0, 3, 0, 0, 192, 0, 48, 3, 252, 0, 0]

/-- `net-games/spacewar-gravity.h`: records of four bytes, the attraction in both coordinates. -/
def Gravity : List UInt8 :=
  [0, 14, 0, 10, 0, 15, 0, 12, 0, 15, 0, 13, 0, 16, 0, 15, 0, 17, 0, 17,
  0, 18, 0, 19, 0, 18, 0, 22, 0, 19, 0, 25, 0, 19, 0, 28, 0, 19, 0, 32,
  0, 18, 0, 37, 0, 17, 0, 41, 0, 15, 0, 46, 0, 13, 0, 52, 0, 9, 0, 57,
  0, 5, 0, 63, 0, 0, 0, 69, 0, 15, 0, 10, 0, 16, 0, 12, 0, 17, 0, 13,
  0, 18, 0, 15, 0, 19, 0, 18, 0, 20, 0, 20, 0, 21, 0, 23, 0, 22, 0, 27,
  0, 22, 0, 31, 0, 22, 0, 35, 0, 22, 0, 41, 0, 21, 0, 47, 0, 19, 0, 53,
  0, 16, 0, 60, 0, 12, 0, 67, 0, 6, 0, 75, 0, 0, 0, 82, 0, 17, 0, 10,
  0, 18, 0, 12, 0, 19, 0, 14, 0, 21, 0, 16, 0, 22, 0, 18, 0, 23, 0, 21,
  0, 25, 0, 25, 0, 26, 0, 29, 0, 27, 0, 33, 0, 27, 0, 39, 0, 27, 0, 45,
  0, 26, 0, 53, 0, 24, 0, 61, 0, 21, 0, 70, 0, 16, 0, 80, 0, 9, 0, 90,
  0, 0, 0, 100, 0, 18, 0, 10, 0, 20, 0, 12, 0, 21, 0, 14, 0, 23, 0, 16,
  0, 25, 0, 19, 0, 27, 0, 22, 0, 29, 0, 26, 0, 30, 0, 30, 0, 32, 0, 36,
  0, 33, 0, 43, 0, 34, 0, 51, 0, 33, 0, 60, 0, 31, 0, 71, 0, 27, 0, 83,
  0, 21, 0, 96, 0, 12, 0, 109, 0, 0, 0, 123, 0, 20, 0, 10, 0, 22, 0, 12,
  0, 24, 0, 13, 0, 26, 0, 16, 0, 28, 0, 19, 0, 31, 0, 22, 0, 33, 0, 27,
  0, 36, 0, 32, 0, 39, 0, 39, 0, 41, 0, 47, 0, 42, 0, 57, 0, 43, 0, 69,
  0, 41, 0, 83, 0, 37, 0, 99, 0, 29, 0, 117, 0, 17, 0, 136, 0, 0, 0, 156,
  0, 22, 0, 9, 0, 24, 0, 11, 0, 27, 0, 13, 0, 29, 0, 16, 0, 32, 0, 19,
  0, 35, 0, 22, 0, 39, 0, 27, 0, 43, 0, 33, 0, 47, 0, 41, 0, 51, 0, 51,
  0, 54, 0, 63, 0, 56, 0, 78, 0, 55, 0, 97, 0, 51, 0, 120, 0, 41, 0, 146,
  0, 25, 0, 175, 0, 0, 0, 204, 0, 24, 0, 9, 0, 27, 0, 10, 0, 30, 0, 12,
  0, 33, 0, 15, 0, 37, 0, 18, 0, 41, 0, 22, 0, 45, 0, 27, 0, 51, 0, 34,
  0, 57, 0, 42, 0, 63, 0, 54, 0, 69, 0, 69, 0, 74, 0, 89, 0, 76, 0, 115,
  0, 74, 0, 148, 0, 62, 0, 187, 0, 38, 0, 231, 0, 0, 1, 21, 0, 27, 0, 8,
  0, 30, 0, 10, 0, 33, 0, 11, 0, 37, 0, 14, 0, 41, 0, 17, 0, 47, 0, 21,
  0, 53, 0, 26, 0, 60, 0, 33, 0, 69, 0, 43, 0, 78, 0, 56, 0, 89, 0, 74,
  0, 100, 0, 100, 0, 108, 0, 135, 0, 110, 0, 183, 0, 98, 0, 246, 0, 64, 1, 64,
  0, 0, 1, 144, 0, 29, 0, 7, 0, 32, 0, 8, 0, 36, 0, 10, 0, 41, 0, 12,
  0, 46, 0, 15, 0, 53, 0, 19, 0, 61, 0, 24, 0, 71, 0, 31, 0, 83, 0, 41,
  0, 97, 0, 55, 0, 115, 0, 76, 0, 135, 0, 108, 0, 156, 0, 156, 0, 171, 0, 228,
  0, 166, 1, 77, 0, 117, 1, 214, 0, 0, 2, 113, 0, 31, 0, 5, 0, 35, 0, 7,
  0, 40, 0, 8, 0, 45, 0, 10, 0, 52, 0, 13, 0, 60, 0, 16, 0, 70, 0, 21,
  0, 83, 0, 27, 0, 99, 0, 37, 0, 120, 0, 51, 0, 148, 0, 74, 0, 183, 0, 110,
  0, 228, 0, 171, 1, 21, 1, 21, 1, 51, 1, 205, 0, 250, 2, 238, 0, 0, 4, 87,
  0, 34, 0, 4, 0, 38, 0, 5, 0, 43, 0, 6, 0, 50, 0, 7, 0, 57, 0, 9,
  0, 67, 0, 12, 0, 80, 0, 16, 0, 96, 0, 21, 0, 117, 0, 29, 0, 146, 0, 41,
  0, 187, 0, 62, 0, 246, 0, 98, 1, 77, 0, 166, 1, 205, 1, 51, 2, 113, 2, 113,
  2, 154, 5, 53, 0, 0, 9, 196, 0, 36, 0, 2, 0, 41, 0, 2, 0, 47, 0, 3,
  0, 54, 0, 4, 0, 63, 0, 5, 0, 75, 0, 6, 0, 90, 0, 9, 0, 109, 0, 12,
  0, 136, 0, 17, 0, 175, 0, 25, 0, 231, 0, 38, 1, 64, 0, 64, 1, 214, 0, 117,
  2, 238, 0, 250, 5, 53, 2, 154, 9, 196, 9, 196, 0, 0, 39, 16, 0, 39, 0, 0,
  0, 44, 0, 0, 0, 51, 0, 0, 0, 59, 0, 0, 0, 69, 0, 0, 0, 82, 0, 0,
  0, 100, 0, 0, 0, 123, 0, 0, 0, 156, 0, 0, 0, 204, 0, 0, 1, 21, 0, 0,
  1, 144, 0, 0, 2, 113, 0, 0, 4, 87, 0, 0, 9, 196, 0, 0, 39, 16, 0, 0,
  0, 0, 0, 0]

end Frobio.Drawing
