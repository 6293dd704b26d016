/-! # Letters and digits of any script

Beyond ASCII the letters are taken by block: a block of a script counts as a whole, and the blocks of
punctuation, symbols and private use count for nothing.
-/

namespace JobTrail

/-- The blocks of scripts beyond ASCII, first and last code point. -/
def scriptBlocks : List (Nat × Nat) :=
  [(0xAA, 0xAA), (0xB2, 0xB3), (0xB5, 0xB5), (0xB9, 0xBA), (0xBC, 0xBE), (0xC0, 0xD6),
   (0xD8, 0xF6), (0xF8, 0x2C1), (0x370, 0x374), (0x376, 0x377), (0x37A, 0x37D), (0x37F, 0x37F),
   (0x386, 0x386), (0x388, 0x3F5), (0x3F7, 0x481), (0x48A, 0x559), (0x560, 0x588), (0x5D0, 0x5F2),
   (0x620, 0x669), (0x66E, 0x6D3), (0x6D5, 0x6DC), (0x700, 0x167F), (0x1681, 0x1FBC),
   (0x2070, 0x2079), (0x207F, 0x2089), (0x2C00, 0x2CE4), (0x2D00, 0x2DFF), (0x3005, 0x3007),
   (0x3031, 0x3035), (0x3041, 0x3096), (0x309D, 0x309F), (0x30A1, 0x30FA), (0x30FC, 0x318E),
   (0x31A0, 0x31BF), (0x31F0, 0x31FF), (0x3400, 0x4DBF), (0x4E00, 0xA48C), (0xA4D0, 0xA4FD),
   (0xA500, 0xD7FB), (0xF900, 0xFAD9), (0xFB00, 0xFBB1), (0xFBD3, 0xFD3D), (0xFD50, 0xFDFB),
   (0xFE70, 0xFEFC), (0xFF10, 0xFF19), (0xFF21, 0xFF3A), (0xFF41, 0xFF5A), (0xFF66, 0xFFDC),
   (0x10000, 0x1CFFF), (0x1D400, 0x1D7FF), (0x1E000, 0x1EFFF), (0x20000, 0x323AF)]

def isScriptChar (c : Char) : Bool :=
  c.isAlphanum || scriptBlocks.any fun (first, last) => first ≤ c.toNat && c.toNat ≤ last

end JobTrail
