/-!
The image that runs when none is given. It writes a greeting of fourteen characters, which
stand in the cells before the code with a zero behind them. Cell `0x7F` holds the index of
the next character and cell `0x80` the character itself.
-/
namespace WordMachine.Image

def greetingText : List Int :=
  [0x48, 0x65, 0x6C, 0x6C, 0x6F, 0x2C, 0x20, 0x77, 0x6F, 0x72, 0x6C, 0x64, 0x21, 0x0A]

def greetingCode : List Int := [
  0x1401, 0x007F, 0x0000,          -- 15: [0x7F] is 0
  0x1200, 0x007F,                  -- 18: loop: slot 0 is [0x7F]
  0x0601, 0x0080,                  -- 20: [0x80] is the character at slot 0
  0x2502, 0x007F, 0x0001, 0x007F,  -- 22: [0x7F] is 1 more
  0x2103, 0x0023, 0x0080,          -- 26: to the end if [0x80] is 0
  0x2104, 0x0000, 0x0080,          -- 29: emit [0x80]
  0x2003, 0x0012, 0x0000,          -- 32: to the loop
  0x0005]                          -- 35: halt

/-- Text, terminator and code. -/
def greeting : List Int :=
  greetingText ++ 0 :: greetingCode

def greetingEntry : Int := 15

end WordMachine.Image
