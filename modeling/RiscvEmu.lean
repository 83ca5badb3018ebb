import RiscvEmu.Core.Sign
import RiscvEmu.Core.Machine
import RiscvEmu.Core.Rvi
import RiscvEmu.Core.Rvc
import RiscvEmu.Core.Decode
import RiscvEmu.Core.Run
import RiscvEmu.Core.Boot
import RiscvEmu.Proofs.Frame
import RiscvEmu.Proofs.Decoding
import RiscvEmu.Proofs.Step
import RiscvEmu.Proofs.Memory
import RiscvEmu.Proofs.Faults
import RiscvEmu.Proofs.Control
import RiscvEmu.Proofs.Encoding
import RiscvEmu.Proofs.Pc
import RiscvEmu.Proofs.Safety
import RiscvEmu.Proofs.Compressed
import RiscvEmu.Proofs.Divide
import RiscvEmu.Proofs.Multiply
import RiscvEmu.Proofs.Alu
import RiscvEmu.Proofs.Csr
import RiscvEmu.Proofs.Effects
import RiscvEmu.Proofs.Boot
