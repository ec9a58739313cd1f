/-! Texts that end at a NUL character, as arguments and messages do when they leave a program. -/

namespace Nes.Terminated

/-- The part of a text in front of its first NUL character, which is all of it if there is none. -/
def content (text : String) : String :=
  String.ofList (text.toList.takeWhile fun c => c.toNat != 0)

end Nes.Terminated
