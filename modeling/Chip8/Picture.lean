import Chip8.Screen

/-!
# Pictures of the screen

* `Screen.picture`: the screen as a plain bitmap in text form: the width and the height, and then a row
  of digits for each row of host pixels, `1` for a lit one.
-/

namespace Chip8.Screen

/-- The digits of one row, each pixel `scale` wide. -/
def pictureRow (s : Screen) (scale y : Nat) : List Char :=
  (List.range 64).flatMap fun x => List.replicate scale (if s.pixel x y then '1' else '0')

/-- The screen as a bitmap, each pixel `scale` wide and high. -/
def picture (s : Screen) (scale : Nat) : String :=
  let rows := (List.range 32).flatMap fun y => List.replicate scale (s.pictureRow scale y ++ ['\n'])
  "P1\n" ++ toString (64 * scale) ++ " " ++ toString (32 * scale) ++ "\n" ++ String.ofList rows.flatten

end Chip8.Screen
