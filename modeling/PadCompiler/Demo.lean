import PadCompiler.Program

/-!
# PadCompiler.Demo

The program that is compiled when no other is given:

```text
fun Area(w: int, h: int) -> int { return w * h; }

let total: int = Area(4, 5);
let scale: float = 0.5;
let ready: bool = true;
total = total * 2;
for (let i: int = 0; i < 3; i = i + 1) {
    __write i, __randi __height, #ff0000;
}
let row: int[3] = [1, 2, 3];
__print row;
__print row[1];
```
-/

namespace PadCompiler.Demo

/-- The function of the demo: the area of a rectangle. -/
def area : Stmt :=
  .function "Area" [⟨"w", .int⟩, ⟨"h", .int⟩] .int
    [.ret (.binary .mul (.ident "w") (.ident "h"))]

/-- The loop of the demo: three red pixels at random heights. -/
def paint : Stmt :=
  .forLoop (some ⟨"i", .int, .int 0⟩)
    (.binary .lt (.ident "i") (.int 3))
    (some ⟨"i", .binary .add (.ident "i") (.int 1)⟩)
    [.write (.ident "i") (.randomInt .padHeight) (.literal (.color "#ff0000"))]

/-- The demo program.  Its float is one half. -/
def program : Program where
  items := [
    area,
    .varDecl ⟨"total", .int, .call "Area" [.int 4, .int 5]⟩,
    .varDecl ⟨"scale", .float, .literal (.float 0x3FE0000000000000)⟩,
    .varDecl ⟨"ready", .bool, .literal (.bool true)⟩,
    .assign ⟨"total", .binary .mul (.ident "total") (.int 2)⟩,
    paint,
    .arrayDecl "row" .int (.int 3) [.int 1, .int 2, .int 3],
    .print (.ident "row"),
    .print (.index "row" (.int 1))]

end PadCompiler.Demo
