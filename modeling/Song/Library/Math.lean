/-!
# Numeric functions of the library

Constants, signs and bounds, divisors, sequences and rounding.
-/
namespace Song.Library

def mathLines : List String :=
  [
    "pi = 3.141592653589793",
    "e = 2.718281828459045",
    "",
    "abs(n) When n < 0 = -n",
    "abs(n) = n",
    "",
    "sign(n) When n < 0 = -1",
    "sign(n) When n > 0 = 1",
    "sign(_) = 0",
    "",
    "min(a, b) When a <= b = a",
    "min(_, b) = b",
    "",
    "max(a, b) When a >= b = a",
    "max(_, b) = b",
    "",
    "clamp(n, low, high) = min(max(n, low), high)",
    "",
    "sqrt(n) = n ^ 0.5",
    "",
    "isEven(n) = n Mod 2 Eq 0",
    "isOdd(n) = n Mod 2 Neq 0",
    "",
    "gcd(a, 0) = abs(a)",
    "gcd(a, b) = gcd(b, a Mod b)",
    "",
    "lcm(0, _) = 0",
    "lcm(_, 0) = 0",
    "lcm(a, b) = abs(a * b) Div gcd(a, b)",
    "",
    "factorial(0, acc) = acc",
    "factorial(n, acc) = factorial(n - 1, n * acc)",
    "factorial(n) When n >= 0 = factorial(n, 1)",
    "",
    "fibonacci(0, a, _) = a",
    "fibonacci(n, a, b) = fibonacci(n - 1, b, a + b)",
    "fibonacci(n) When n >= 0 = fibonacci(n, 0, 1)",
    "",
    "floor(x) When truncate(x) > x = truncate(x) - 1",
    "floor(x) = truncate(x)",
    "",
    "ceiling(x) When truncate(x) < x = truncate(x) + 1",
    "ceiling(x) = truncate(x)",
    "",
    "round(x) = floor(x + 0.5)"
  ]

end Song.Library
