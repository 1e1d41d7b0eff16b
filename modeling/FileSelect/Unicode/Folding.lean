import FileSelect.Unicode.Runs

/-!
# Simple case folding

Characters that differ only in case are folded to one character.
-/

namespace FileSelect.Unicode

/-- First character and length of a run, and what its first character is folded to. -/
def foldingRuns : List String :=
  [
    "41+26>61 B5+1>3BC C0+23>E0 D8+7>F8 100+1>101 102+1>103 104+1>105 106+1>107 108+1>109",
    "10A+1>10B 10C+1>10D 10E+1>10F 110+1>111 112+1>113 114+1>115 116+1>117 118+1>119",
    "11A+1>11B 11C+1>11D 11E+1>11F 120+1>121 122+1>123 124+1>125 126+1>127 128+1>129",
    "12A+1>12B 12C+1>12D 12E+1>12F 132+1>133 134+1>135 136+1>137 139+1>13A 13B+1>13C",
    "13D+1>13E 13F+1>140 141+1>142 143+1>144 145+1>146 147+1>148 14A+1>14B 14C+1>14D",
    "14E+1>14F 150+1>151 152+1>153 154+1>155 156+1>157 158+1>159 15A+1>15B 15C+1>15D",
    "15E+1>15F 160+1>161 162+1>163 164+1>165 166+1>167 168+1>169 16A+1>16B 16C+1>16D",
    "16E+1>16F 170+1>171 172+1>173 174+1>175 176+1>177 178+1>FF 179+1>17A 17B+1>17C 17D+1>17E",
    "17F+1>73 181+1>253 182+1>183 184+1>185 186+1>254 187+1>188 189+2>256 18B+1>18C 18E+1>1DD",
    "18F+1>259 190+1>25B 191+1>192 193+1>260 194+1>263 196+1>269 197+1>268 198+1>199",
    "19C+1>26F 19D+1>272 19F+1>275 1A0+1>1A1 1A2+1>1A3 1A4+1>1A5 1A6+1>280 1A7+1>1A8",
    "1A9+1>283 1AC+1>1AD 1AE+1>288 1AF+1>1B0 1B1+2>28A 1B3+1>1B4 1B5+1>1B6 1B7+1>292",
    "1B8+1>1B9 1BC+1>1BD 1C4+1>1C6 1C5+1>1C6 1C7+1>1C9 1C8+1>1C9 1CA+1>1CC 1CB+1>1CC",
    "1CD+1>1CE 1CF+1>1D0 1D1+1>1D2 1D3+1>1D4 1D5+1>1D6 1D7+1>1D8 1D9+1>1DA 1DB+1>1DC",
    "1DE+1>1DF 1E0+1>1E1 1E2+1>1E3 1E4+1>1E5 1E6+1>1E7 1E8+1>1E9 1EA+1>1EB 1EC+1>1ED",
    "1EE+1>1EF 1F1+1>1F3 1F2+1>1F3 1F4+1>1F5 1F6+1>195 1F7+1>1BF 1F8+1>1F9 1FA+1>1FB",
    "1FC+1>1FD 1FE+1>1FF 200+1>201 202+1>203 204+1>205 206+1>207 208+1>209 20A+1>20B",
    "20C+1>20D 20E+1>20F 210+1>211 212+1>213 214+1>215 216+1>217 218+1>219 21A+1>21B",
    "21C+1>21D 21E+1>21F 220+1>19E 222+1>223 224+1>225 226+1>227 228+1>229 22A+1>22B",
    "22C+1>22D 22E+1>22F 230+1>231 232+1>233 23A+1>2C65 23B+1>23C 23D+1>19A 23E+1>2C66",
    "241+1>242 243+1>180 244+1>289 245+1>28C 246+1>247 248+1>249 24A+1>24B 24C+1>24D",
    "24E+1>24F 345+1>3B9 370+1>371 372+1>373 376+1>377 37F+1>3F3 386+1>3AC 388+3>3AD",
    "38C+1>3CC 38E+2>3CD 391+17>3B1 3A3+9>3C3 3C2+1>3C3 3CF+1>3D7 3D0+1>3B2 3D1+1>3B8",
    "3D5+1>3C6 3D6+1>3C0 3D8+1>3D9 3DA+1>3DB 3DC+1>3DD 3DE+1>3DF 3E0+1>3E1 3E2+1>3E3",
    "3E4+1>3E5 3E6+1>3E7 3E8+1>3E9 3EA+1>3EB 3EC+1>3ED 3EE+1>3EF 3F0+1>3BA 3F1+1>3C1",
    "3F4+1>3B8 3F5+1>3B5 3F7+1>3F8 3F9+1>3F2 3FA+1>3FB 3FD+3>37B 400+16>450 410+32>430",
    "460+1>461 462+1>463 464+1>465 466+1>467 468+1>469 46A+1>46B 46C+1>46D 46E+1>46F",
    "470+1>471 472+1>473 474+1>475 476+1>477 478+1>479 47A+1>47B 47C+1>47D 47E+1>47F",
    "480+1>481 48A+1>48B 48C+1>48D 48E+1>48F 490+1>491 492+1>493 494+1>495 496+1>497",
    "498+1>499 49A+1>49B 49C+1>49D 49E+1>49F 4A0+1>4A1 4A2+1>4A3 4A4+1>4A5 4A6+1>4A7",
    "4A8+1>4A9 4AA+1>4AB 4AC+1>4AD 4AE+1>4AF 4B0+1>4B1 4B2+1>4B3 4B4+1>4B5 4B6+1>4B7",
    "4B8+1>4B9 4BA+1>4BB 4BC+1>4BD 4BE+1>4BF 4C0+1>4CF 4C1+1>4C2 4C3+1>4C4 4C5+1>4C6",
    "4C7+1>4C8 4C9+1>4CA 4CB+1>4CC 4CD+1>4CE 4D0+1>4D1 4D2+1>4D3 4D4+1>4D5 4D6+1>4D7",
    "4D8+1>4D9 4DA+1>4DB 4DC+1>4DD 4DE+1>4DF 4E0+1>4E1 4E2+1>4E3 4E4+1>4E5 4E6+1>4E7",
    "4E8+1>4E9 4EA+1>4EB 4EC+1>4ED 4EE+1>4EF 4F0+1>4F1 4F2+1>4F3 4F4+1>4F5 4F6+1>4F7",
    "4F8+1>4F9 4FA+1>4FB 4FC+1>4FD 4FE+1>4FF 500+1>501 502+1>503 504+1>505 506+1>507",
    "508+1>509 50A+1>50B 50C+1>50D 50E+1>50F 510+1>511 512+1>513 514+1>515 516+1>517",
    "518+1>519 51A+1>51B 51C+1>51D 51E+1>51F 520+1>521 522+1>523 524+1>525 526+1>527",
    "528+1>529 52A+1>52B 52C+1>52D 52E+1>52F 531+38>561 10A0+38>2D00 10C7+1>2D27 10CD+1>2D2D",
    "13F8+6>13F0 1C80+1>432 1C81+1>434 1C82+1>43E 1C83+2>441 1C85+1>442 1C86+1>44A 1C87+1>463",
    "1C88+1>A64B 1C90+43>10D0 1CBD+3>10FD 1E00+1>1E01 1E02+1>1E03 1E04+1>1E05 1E06+1>1E07",
    "1E08+1>1E09 1E0A+1>1E0B 1E0C+1>1E0D 1E0E+1>1E0F 1E10+1>1E11 1E12+1>1E13 1E14+1>1E15",
    "1E16+1>1E17 1E18+1>1E19 1E1A+1>1E1B 1E1C+1>1E1D 1E1E+1>1E1F 1E20+1>1E21 1E22+1>1E23",
    "1E24+1>1E25 1E26+1>1E27 1E28+1>1E29 1E2A+1>1E2B 1E2C+1>1E2D 1E2E+1>1E2F 1E30+1>1E31",
    "1E32+1>1E33 1E34+1>1E35 1E36+1>1E37 1E38+1>1E39 1E3A+1>1E3B 1E3C+1>1E3D 1E3E+1>1E3F",
    "1E40+1>1E41 1E42+1>1E43 1E44+1>1E45 1E46+1>1E47 1E48+1>1E49 1E4A+1>1E4B 1E4C+1>1E4D",
    "1E4E+1>1E4F 1E50+1>1E51 1E52+1>1E53 1E54+1>1E55 1E56+1>1E57 1E58+1>1E59 1E5A+1>1E5B",
    "1E5C+1>1E5D 1E5E+1>1E5F 1E60+1>1E61 1E62+1>1E63 1E64+1>1E65 1E66+1>1E67 1E68+1>1E69",
    "1E6A+1>1E6B 1E6C+1>1E6D 1E6E+1>1E6F 1E70+1>1E71 1E72+1>1E73 1E74+1>1E75 1E76+1>1E77",
    "1E78+1>1E79 1E7A+1>1E7B 1E7C+1>1E7D 1E7E+1>1E7F 1E80+1>1E81 1E82+1>1E83 1E84+1>1E85",
    "1E86+1>1E87 1E88+1>1E89 1E8A+1>1E8B 1E8C+1>1E8D 1E8E+1>1E8F 1E90+1>1E91 1E92+1>1E93",
    "1E94+1>1E95 1E9B+1>1E61 1E9E+1>DF 1EA0+1>1EA1 1EA2+1>1EA3 1EA4+1>1EA5 1EA6+1>1EA7",
    "1EA8+1>1EA9 1EAA+1>1EAB 1EAC+1>1EAD 1EAE+1>1EAF 1EB0+1>1EB1 1EB2+1>1EB3 1EB4+1>1EB5",
    "1EB6+1>1EB7 1EB8+1>1EB9 1EBA+1>1EBB 1EBC+1>1EBD 1EBE+1>1EBF 1EC0+1>1EC1 1EC2+1>1EC3",
    "1EC4+1>1EC5 1EC6+1>1EC7 1EC8+1>1EC9 1ECA+1>1ECB 1ECC+1>1ECD 1ECE+1>1ECF 1ED0+1>1ED1",
    "1ED2+1>1ED3 1ED4+1>1ED5 1ED6+1>1ED7 1ED8+1>1ED9 1EDA+1>1EDB 1EDC+1>1EDD 1EDE+1>1EDF",
    "1EE0+1>1EE1 1EE2+1>1EE3 1EE4+1>1EE5 1EE6+1>1EE7 1EE8+1>1EE9 1EEA+1>1EEB 1EEC+1>1EED",
    "1EEE+1>1EEF 1EF0+1>1EF1 1EF2+1>1EF3 1EF4+1>1EF5 1EF6+1>1EF7 1EF8+1>1EF9 1EFA+1>1EFB",
    "1EFC+1>1EFD 1EFE+1>1EFF 1F08+8>1F00 1F18+6>1F10 1F28+8>1F20 1F38+8>1F30 1F48+6>1F40",
    "1F59+1>1F51 1F5B+1>1F53 1F5D+1>1F55 1F5F+1>1F57 1F68+8>1F60 1F88+8>1F80 1F98+8>1F90",
    "1FA8+8>1FA0 1FB8+2>1FB0 1FBA+2>1F70 1FBC+1>1FB3 1FBE+1>3B9 1FC8+4>1F72 1FCC+1>1FC3",
    "1FD8+2>1FD0 1FDA+2>1F76 1FE8+2>1FE0 1FEA+2>1F7A 1FEC+1>1FE5 1FF8+2>1F78 1FFA+2>1F7C",
    "1FFC+1>1FF3 2126+1>3C9 212A+1>6B 212B+1>E5 2132+1>214E 2160+16>2170 2183+1>2184",
    "24B6+26>24D0 2C00+48>2C30 2C60+1>2C61 2C62+1>26B 2C63+1>1D7D 2C64+1>27D 2C67+1>2C68",
    "2C69+1>2C6A 2C6B+1>2C6C 2C6D+1>251 2C6E+1>271 2C6F+1>250 2C70+1>252 2C72+1>2C73",
    "2C75+1>2C76 2C7E+2>23F 2C80+1>2C81 2C82+1>2C83 2C84+1>2C85 2C86+1>2C87 2C88+1>2C89",
    "2C8A+1>2C8B 2C8C+1>2C8D 2C8E+1>2C8F 2C90+1>2C91 2C92+1>2C93 2C94+1>2C95 2C96+1>2C97",
    "2C98+1>2C99 2C9A+1>2C9B 2C9C+1>2C9D 2C9E+1>2C9F 2CA0+1>2CA1 2CA2+1>2CA3 2CA4+1>2CA5",
    "2CA6+1>2CA7 2CA8+1>2CA9 2CAA+1>2CAB 2CAC+1>2CAD 2CAE+1>2CAF 2CB0+1>2CB1 2CB2+1>2CB3",
    "2CB4+1>2CB5 2CB6+1>2CB7 2CB8+1>2CB9 2CBA+1>2CBB 2CBC+1>2CBD 2CBE+1>2CBF 2CC0+1>2CC1",
    "2CC2+1>2CC3 2CC4+1>2CC5 2CC6+1>2CC7 2CC8+1>2CC9 2CCA+1>2CCB 2CCC+1>2CCD 2CCE+1>2CCF",
    "2CD0+1>2CD1 2CD2+1>2CD3 2CD4+1>2CD5 2CD6+1>2CD7 2CD8+1>2CD9 2CDA+1>2CDB 2CDC+1>2CDD",
    "2CDE+1>2CDF 2CE0+1>2CE1 2CE2+1>2CE3 2CEB+1>2CEC 2CED+1>2CEE 2CF2+1>2CF3 A640+1>A641",
    "A642+1>A643 A644+1>A645 A646+1>A647 A648+1>A649 A64A+1>A64B A64C+1>A64D A64E+1>A64F",
    "A650+1>A651 A652+1>A653 A654+1>A655 A656+1>A657 A658+1>A659 A65A+1>A65B A65C+1>A65D",
    "A65E+1>A65F A660+1>A661 A662+1>A663 A664+1>A665 A666+1>A667 A668+1>A669 A66A+1>A66B",
    "A66C+1>A66D A680+1>A681 A682+1>A683 A684+1>A685 A686+1>A687 A688+1>A689 A68A+1>A68B",
    "A68C+1>A68D A68E+1>A68F A690+1>A691 A692+1>A693 A694+1>A695 A696+1>A697 A698+1>A699",
    "A69A+1>A69B A722+1>A723 A724+1>A725 A726+1>A727 A728+1>A729 A72A+1>A72B A72C+1>A72D",
    "A72E+1>A72F A732+1>A733 A734+1>A735 A736+1>A737 A738+1>A739 A73A+1>A73B A73C+1>A73D",
    "A73E+1>A73F A740+1>A741 A742+1>A743 A744+1>A745 A746+1>A747 A748+1>A749 A74A+1>A74B",
    "A74C+1>A74D A74E+1>A74F A750+1>A751 A752+1>A753 A754+1>A755 A756+1>A757 A758+1>A759",
    "A75A+1>A75B A75C+1>A75D A75E+1>A75F A760+1>A761 A762+1>A763 A764+1>A765 A766+1>A767",
    "A768+1>A769 A76A+1>A76B A76C+1>A76D A76E+1>A76F A779+1>A77A A77B+1>A77C A77D+1>1D79",
    "A77E+1>A77F A780+1>A781 A782+1>A783 A784+1>A785 A786+1>A787 A78B+1>A78C A78D+1>265",
    "A790+1>A791 A792+1>A793 A796+1>A797 A798+1>A799 A79A+1>A79B A79C+1>A79D A79E+1>A79F",
    "A7A0+1>A7A1 A7A2+1>A7A3 A7A4+1>A7A5 A7A6+1>A7A7 A7A8+1>A7A9 A7AA+1>266 A7AB+1>25C",
    "A7AC+1>261 A7AD+1>26C A7AE+1>26A A7B0+1>29E A7B1+1>287 A7B2+1>29D A7B3+1>AB53",
    "A7B4+1>A7B5 A7B6+1>A7B7 A7B8+1>A7B9 A7BA+1>A7BB A7BC+1>A7BD A7BE+1>A7BF A7C0+1>A7C1",
    "A7C2+1>A7C3 A7C4+1>A794 A7C5+1>282 A7C6+1>1D8E A7C7+1>A7C8 A7C9+1>A7CA A7D0+1>A7D1",
    "A7D6+1>A7D7 A7D8+1>A7D9 A7F5+1>A7F6 AB70+80>13A0 FF21+26>FF41 10400+40>10428",
    "104B0+36>104D8 10570+11>10597 1057C+15>105A3 1058C+7>105B3 10594+2>105BB 10C80+51>10CC0",
    "118A0+32>118C0 16E40+32>16E60 1E900+34>1E922"
  ]

/-- First character, length and target of each run. -/
def foldings : List (Nat × Nat × Nat) :=
  (wordsOf foldingRuns).filterMap fun word => do
    let (first, rest) ← Text.splitFirst? ['+'] word
    let (count, target) ← Text.splitFirst? ['>'] rest
    some (hexNumber first, decimalNumber count, hexNumber target)

/-- The code of the character that `n` is folded to. -/
def foldCode (n : Nat) : Nat :=
  match foldings.find? fun (first, count, _) => first ≤ n && n < first + count with
  | some (first, _, target) => target + (n - first)
  | none => n

/-- The codes that are folded to the same character as `n`. -/
def caseVariants (n : Nat) : List Nat :=
  let folded := foldCode n
  folded :: foldings.filterMap fun (first, count, target) =>
    if target ≤ folded && folded < target + count then some (first + (folded - target)) else none

end FileSelect.Unicode
