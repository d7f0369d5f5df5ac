import BraceScript.Number.Decimal

/-! # Sample programs — texts of any size

    Each family of programs has one size.  The survey declares and uses something of every kind,
    the loops run the machine, and the recursion calls itself. -/

namespace BraceScript.Sample

/-- How an integer stands in a program. -/
def integer (n : Int) : String :=
  if n < 0 then "-" ++ Number.digitText n.natAbs else Number.digitText n.natAbs

/-- Lines of text, one under the other. -/
def lines (ls : List String) : String := "\n".intercalate ls

/-- One line for each number below a size; a negative size has none. -/
def series (size : Int) (line : Nat → String) : List String :=
  (List.range size.toNat).map line

/-! ## The survey -/

/-- What the survey declares. -/
def surveyDeclarations : List String := [
  "    # header comment",
  "    keep number LIMIT = 10",
  "    keep string TITLE, SUB = \"hello\\n\\tworld\", 'sub'",
  "    let number a, b, c = 1, 2.5, +3",
  "    let string s",
  "    let boolean flag = true",
  "    func add(number x, number y) -> number \x7b",
  "        let number r = x + y",
  "        give r",
  "    \x7d",
  "    func zero() -> number \x7b",
  "        give 0",
  "    \x7d",
  "    proc doThing(string msg, number k) \x7b",
  "        let number j = 0",
  "        while j < k \x7b",
  "            if j == 0 \x7b",
  "                j = j + 1",
  "                skip",
  "            \x7d elif j >= 100 \x7b",
  "                stop",
  "            \x7d else \x7b",
  "                j = j + 1",
  "            \x7d",
  "        \x7d",
  "        give",
  "    \x7d",
  "    proc noop() \x7b",
  "        let number q = 1",
  "    \x7d"]

/-- What the survey does with its declarations. -/
def surveyStatements : List String := [
  "    exec doThing(TITLE, 2)",
  "    exec noop()",
  "    let number zz = zero()",
  "    let number i",
  "    for i = 0 to 3 step 1 \x7b",
  "        a = a + i",
  "    \x7d",
  "    for i = 3 to 0 \x7b",
  "        a = a - 1",
  "    \x7d",
  "    if not flag and a < 5 or b != 0 \x7b",
  "        a = -a ** 2 // 1 % 3 * (b - c) / 2",
  "    \x7d elif a <= 0 \x7b",
  "        a = a",
  "    \x7d elif a > 1000 \x7b",
  "        a = a",
  "    \x7d else \x7b",
  "        a = a",
  "    \x7d"]

/-- One of the declarations that the size of the survey counts. -/
def surveyLine (i : Nat) : String :=
  let index := Number.digitText i
  "    let number v" ++ index ++ " = add(" ++ Number.digitText (i % 7) ++ ", "
    ++ Number.digitText (i % 5) ++ ") + a - " ++ index ++ ".5 * 1"

/-- The survey with a number of further declarations; with none of them a line stays empty. -/
def survey (size : Int) : String :=
  lines (["\x7b"] ++ surveyDeclarations ++ surveyStatements
    ++ [lines (series size surveyLine), "    s = \"x\" + a", "\x7d"])

/-! ## The loops -/

/-- What the loops declare; the bound of the first loop is the size. -/
def loopDeclarations (size : Int) : List String := [
  "    keep number N = " ++ integer size,
  "    keep string T = \"t\"",
  "    let number a, b = 1, 2.0",
  "    let string s = 'p'",
  "    let boolean f = true",
  "    let boolean g = false",
  "    func combine(number x, number y) -> number \x7b",
  "        if x <= 0 \x7b",
  "            give y",
  "        \x7d",
  "        give x + y * 2 - 1 // 1 % 3 ** 1 / 1",
  "    \x7d",
  "    proc act(number k) \x7b",
  "        let number j = 0",
  "        while j < k \x7b",
  "            j = j + 1",
  "        \x7d",
  "        give",
  "    \x7d",
  "    proc nothing() \x7b",
  "        let number q = 0",
  "    \x7d"]

/-- The loops themselves. -/
def loopStatements : List String := [
  "    exec nothing()",
  "    let number i = 0",
  "    while i < N \x7b",
  "        a = combine(i, a)",
  "        if i == 0 \x7b",
  "            i = i + 1",
  "            skip",
  "        \x7d elif i >= N - 1 and not g \x7b",
  "            exec act(2)",
  "            i = i + 1",
  "            stop",
  "        \x7d else \x7b",
  "            i = i + 1",
  "        \x7d",
  "        if s or g \x7b",
  "            b = -b + +a",
  "        \x7d",
  "        if f and i < N or i != 0 \x7b",
  "            b = b",
  "        \x7d",
  "    \x7d",
  "    let number m",
  "    for m = 0 to 4 step 1 \x7b",
  "        a = a + m",
  "    \x7d",
  "    for m = 4 to 0 \x7b",
  "        a = a - 1",
  "    \x7d"]

/-- A loop that is skipped in and stopped, outside any while block. -/
def interruptedLoop : List String := [
  "    let number h",
  "    for h = 0 to 6 \x7b",
  "        if h > 3 \x7b",
  "            stop",
  "        \x7d",
  "        if h == 1 \x7b",
  "            skip",
  "        \x7d",
  "        a = a + h",
  "    \x7d"]

/-- The loops up to a bound, with the interrupted one on demand. -/
def loops (interrupted : Bool) (size : Int) : String :=
  lines (["\x7b"] ++ loopDeclarations size ++ loopStatements
    ++ (if interrupted then interruptedLoop else []) ++ ["    s = T + a", "    show s", "\x7d"])

/-! ## The recursion -/

/-- Fibonacci's sequence at a place, by two calls for each. -/
def recursion (place : Int) : String :=
  lines [
    "\x7b",
    "    func fib(number n) -> number \x7b",
    "        if n <= 1 \x7b give n \x7d",
    "        give fib(n - 1) + fib(n - 2)",
    "    \x7d",
    "    let number r = fib(" ++ integer place ++ ")",
    "    show r",
    "\x7d"]

end BraceScript.Sample
